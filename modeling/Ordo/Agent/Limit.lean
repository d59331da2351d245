import Ordo.Value.Access

namespace Ordo

/-!
# Limits

How often something may be tried.  A limit is a number or a truth value, which allows one try or
none.  Where a limit is reported, it is shown as it was given.

* `Limit` — a limit, as it is given;
* `Limit.tries` — how many tries it allows;
* `Limit.ofValue`, `Limit.toValue` — limits in data, and as data.
-/

/-- How often something may be tried. -/
inductive Limit
  | number (n : Int)
  | flag (b : Bool)
  deriving DecidableEq, Repr

namespace Limit

instance (n : Nat) : OfNat Limit n := ⟨number n⟩

/-- The number of tries that a limit allows: none if it is negative. -/
def tries : Limit → Nat
  | number n => n.toNat
  | flag b => b.toNat

/-- A limit as data. -/
def toValue : Limit → Value
  | number n => .int n
  | flag b => .bool b

/-- The limit that data hold.  Only numbers without a fraction count tries. -/
def ofValue : Value → Except AccessError Limit
  | .int i => .ok (number i)
  | .bool b => .ok (flag b)
  | v => .error (.notCount v.className)

/-- A limit is read back from its data. -/
@[simp]
theorem ofValue_toValue (limit : Limit) : ofValue limit.toValue = .ok limit := by
  cases limit <;> rfl

end Limit

end Ordo
