import Ordo.Value.Equal
import Ordo.Value.Text

namespace Ordo

/-!
# Names

In a program that was parsed, a name is a text.  A program that comes as data may have anything
in the place of a name, which is then kept as the value it is.

* `Name` — names, with `Name.ofValue` and `Name.toValue`;
* `Name.shown` — the text of a name;
* `Name.same` — whether two names are equal;
* `Name.extend` — a name with something written after it.
-/

/-- Names. -/
inductive Name
  | text (s : String)
  /-- Anything that is no text. -/
  | other (v : Value)
  deriving Inhabited

namespace Name

instance : Coe String Name := ⟨text⟩

/-- The name that a value stands for. -/
def ofValue : Value → Name
  | .str s => text s
  | v => other v

/-- A name as a value. -/
def toValue : Name → Value
  | text s => .str s
  | other v => v

/-- The text of a name. -/
def shown : Name → String
  | text s => s
  | other v => v.text

/-- A name with a text after it.  A name that is a list gets the characters of the text as
    items. -/
def extend (n : Name) (suffix : String) : Name :=
  if suffix.isEmpty then n
  else match n with
    | other (.list xs) => other (.list (xs ++ suffix.toList.map fun c => .str (.singleton c)))
    | n => text (n.shown ++ suffix)

/-- Whether two names are equal. -/
def same : Name → Name → Bool
  | text s, text t => s == t
  | m, n => m.toValue.same n.toValue

/-- Texts are equal as names if they are equal. -/
@[simp]
theorem same_text (s t : String) : (text s).same (text t) = (s == t) := rfl

/-- A name that is read from a value is written back as that value. -/
@[simp]
theorem toValue_ofValue (v : Value) : (ofValue v).toValue = v := by
  cases v <;> rfl

end Name

end Ordo
