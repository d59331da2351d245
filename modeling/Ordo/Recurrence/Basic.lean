import Ordo.Decimal.Numeral
import Ordo.Text.Template
import Ordo.Value.Basic

namespace Ordo.Recurrence

/-!
# Recurrences

Recurrences are read from text by templates.

* `SolverError` — why a recurrence cannot be worked with;
* `written` — the text of a whole number, unless it is too long;
* `blanks`, `digits`, `anything` — pieces that templates of recurrences share;
* `Divide`, `Divide.read` — recurrences `T(n) = a T(n/b) + f`;
* `Linear`, `Linear.read` — recurrences `T(n) = T(n-k) + f`.
-/

/-- Why a recurrence cannot be worked with. -/
inductive SolverError
  | numeral (e : Decimal.NumeralError)
  /-- A number has too many digits to be written. -/
  | tooLong
  /-- The logarithm of zero. -/
  | logOfZero
  /-- The base of a logarithm is one. -/
  | baseOne
  /-- An exponent is beyond all doubles. -/
  | tooLarge
  deriving DecidableEq, Repr

/-- The wording of an error. -/
def SolverError.message : SolverError → String
  | numeral e => e.message
  | tooLong =>
      "Exceeds the limit (4300 digits) for integer string conversion; "
        ++ "use sys.set_int_max_str_digits() to increase the limit"
  | logOfZero => "math domain error"
  | baseOne => "float division by zero"
  | tooLarge => "int too large to convert to float"

/-- The text of a whole number, unless it has too many digits. -/
def written (i : Int) : Except SolverError String :=
  if Nat.pow 10 Decimal.digitLimit ≤ i.natAbs then .error .tooLong else .ok (toString i)

/-- A natural number in a text of digits. -/
def number (cs : List Char) : Except SolverError Nat :=
  match Decimal.readWhole (String.ofList cs) with
  | .ok i => .ok i.toNat
  | .error e => .error (.numeral e)

/-! ### Pieces of templates -/

/-- Blanks, if any. -/
def blanks : Text.Piece := .skip Text.isBlank

/-- Digits, at least one. -/
def digits : Text.Piece := .longest Text.isDecimal

/-- Any character but a line break. -/
def inLine (c : Char) : Bool := c != '\n'

/-- The shortest text within a line. -/
def brief : Text.Piece := .shortest inLine

/-- The longest text within a line. -/
def anything : Text.Piece := .longest inLine

open Text.Template (text)

/-- The text `T(n) =` with blanks around the equality sign. -/
def head : Text.Template := text "T(n)" ++ [blanks, .char '=', blanks]

/-- A plus sign with blanks around it. -/
def plus : Text.Template := [blanks, .char '+', blanks]

/-- The text `T(n/b)`. -/
def divided : Text.Template := text "T(n/" ++ [digits, .char ')']

/-- A coefficient, with or without a star. -/
def coefficient : Text.Template := [digits, blanks, .optional '*', blanks]

/-- A cost `O(f)`, up to the first closing parenthesis. -/
def order : Text.Template := text "O(" ++ [brief, .char ')']

/-! ### Dividing recurrences -/

/-- A recurrence `T(n) = a T(n/b) + f`. -/
structure Divide where
  branches : Nat
  factor : Nat
  cost : String
  deriving DecidableEq, Repr

namespace Divide

/-- A recurrence from its digits and cost. -/
def ofRuns (branches factor cost : List Char) : Except SolverError Divide := do
  return ⟨← number branches, ← number factor, String.ofList (Text.trim cost)⟩

/-- The recurrence in kept runs: coefficient, divisor and cost, or the last two. -/
def ofFit : List (List Char) → Except SolverError (Option Divide)
  | [a, b, f] => do return some (← ofRuns a b f)
  | [b, f] => do return some (← ofRuns ['1'] b f)
  | _ => .ok none

/-- The forms of a recurrence, in the order in which they are tried. -/
def forms : List Text.Template :=
  [head ++ coefficient ++ divided ++ plus ++ order,
   head ++ divided ++ plus ++ order,
   head ++ coefficient ++ divided ++ plus ++ [anything],
   head ++ divided ++ plus ++ [anything]]

/-- Reads a recurrence in the first form that is found in the text. -/
def read (s : String) : Except SolverError (Option Divide) :=
  let cs := Text.trim s.toList
  match forms.findSome? fun t => t.search cs with
  | some runs => ofFit runs
  | none => .ok none

/-- A recurrence as data. -/
def toValue (d : Divide) : Value :=
  .dict [("a", .int d.branches), ("b", .int d.factor), ("f_n", .str d.cost)]

end Divide

/-! ### Linear recurrences -/

/-- A recurrence `T(n) = T(n-k) + f`. -/
structure Linear where
  decrement : Nat
  cost : String
  deriving DecidableEq, Repr

namespace Linear

/-- The form of a linear recurrence. -/
def form : Text.Template :=
  head ++ text "T(n" ++ [blanks, .char '-', blanks, digits, .char ')'] ++ plus ++ order

/-- Reads a linear recurrence. -/
def read (s : String) : Except SolverError (Option Linear) :=
  match form.search s.toList with
  | some [k, f] => do return some ⟨← number k, String.ofList (Text.trim f)⟩
  | _ => .ok none

/-- A recurrence as data. -/
def toValue (l : Linear) : Value :=
  .dict [("decrement", .int l.decrement), ("cost", .str l.cost)]

end Linear

end Ordo.Recurrence
