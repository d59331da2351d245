import Ordo.Decimal.Fixed
import Ordo.Recurrence.Basic
import Ordo.Text.Lower

namespace Ordo.Recurrence

/-!
# The master theorem

The cost of a dividing recurrence is compared with `n ^ log_b a`: a smaller cost makes case 1,
an equal one case 2 and a larger one case 3.

* `CostOrder`, `CostOrder.read` — the exponent that a cost counts as;
* `Exponent` — what the order of a cost is compared with;
* `Comparison`, `Comparison.decide` — the comparison, for any kind of number;
* `naturalLog` — the logarithm of a natural number, however large, by one of doubles;
* `Master.solveBy` — the theorem applied to a recurrence, by a logarithm of doubles;
* `Master.report` — what is answered.
-/

/-! ### Orders of cost -/

/-- The exponent that a cost counts as.  A logarithm counts as a half, and after `n` as a
    tenth. -/
inductive CostOrder
  | whole (exponent : Nat)
  | logarithm
  | linearithm
  deriving DecidableEq, Repr

namespace CostOrder

/-- The costs with a known exponent. -/
def table : List (String × CostOrder) :=
  [("1", whole 0), ("log n", logarithm), ("n", whole 1), ("n log n", linearithm),
   ("n²", whole 2), ("n^2", whole 2), ("n³", whole 3), ("n^3", whole 3)]

/-- A power of `n`, with or without a caret. -/
def power : Text.Template := [.char 'n', .optional '^', digits]

/-- The exponent that a cost counts as: that in the table, or of the first power of `n`. -/
def read (cost : String) : Except SolverError (Option CostOrder) :=
  match table.lookup (String.ofList (Text.lower cost.toList)) with
  | some o => .ok (some o)
  | none =>
      match power.search cost.toList with
      | some [k] => do return some (whole (← number k))
      | _ => .ok none

end CostOrder

/-! ### Cases -/

/-- The cases of the theorem. -/
inductive Case
  | one | two | three
  deriving DecidableEq, Repr

/-- The number of a case. -/
def Case.number : Case → Nat
  | one => 1 | two => 2 | three => 3

/-- The name of a case. -/
def Case.name : Case → String
  | one => "case1" | two => "case2" | three => "case3"

/-- How the order of a cost is compared with an exponent: whether it is below it by more than
    a margin, and whether it is within the margin. -/
structure Comparison (α : Type) where
  isBelow : CostOrder → α → Except SolverError Bool
  isNear : CostOrder → α → Except SolverError Bool

/-- The case for the order of a cost and an exponent. -/
def Comparison.caseOf {α : Type} (c : Comparison α) (o : CostOrder) (exponent : α) :
    Except SolverError Case := do
  if ← c.isBelow o exponent then return .one
  else if ← c.isNear o exponent then return .two
  else return .three

/-- The case for a cost and an exponent; case 2 for a cost of unknown order. -/
def Comparison.decide {α : Type} (c : Comparison α) (cost : String) (exponent : α) :
    Except SolverError Case := do
  match ← CostOrder.read cost with
  | none => return .two
  | some o => c.caseOf o exponent

/-- Whether a natural number is below a double, without rounding it. -/
def natBelow (n : Nat) (f : Float) : Bool :=
  if f.isNaN || f ≤ 0.0 then false
  else if f.isInf then true
  else match Decimal.Binary.ofBits? f.toBits.toNat with
    | some b => Decimal.Ratio.lt ⟨n, 1⟩ b.value
    | none => false

/-- The margin of the comparison. -/
def margin : Float := 0.01

/-- The order of a cost as a double. -/
def CostOrder.toFloat : CostOrder → Except SolverError Float
  | whole k =>
      match Decimal.ofNat? k with
      | some f => .ok f
      | none => .error .tooLarge
  | logarithm => .ok 0.5
  | linearithm => .ok 1.1

/-- Whether the order of a cost is below a double. -/
def CostOrder.isBelow (o : CostOrder) (x : Float) : Bool :=
  match o with
  | .whole k => natBelow k x
  | .logarithm => 0.5 < x
  | .linearithm => 1.1 < x

/-- The comparison in doubles. -/
def Comparison.double : Comparison Float where
  isBelow o x := .ok (o.isBelow (x - margin))
  isNear o x := do return ((← o.toFloat) - x).abs < margin

/-- What the order of a cost is compared with: a whole number or a double. -/
inductive Exponent
  | whole (i : Int)
  | real (x : Float)

/-- An exponent as a double. -/
def Exponent.toFloat : Exponent → Except SolverError Float
  | whole i =>
      match Decimal.ofNat? i.natAbs with
      | some x => .ok (if i < 0 then -x else x)
      | none => .error .tooLarge
  | real x => .ok x

/-- The comparison in doubles, but of whole numbers without rounding them. -/
def Comparison.mixed : Comparison Exponent where
  isBelow o e := do return o.isBelow ((← e.toFloat) - margin)
  isNear o e :=
    match o, e with
    | .whole k, .whole i => .ok ((k : Int) == i)
    | o, e => do return ((← o.toFloat) - (← e.toFloat)).abs < margin

/-! ### Logarithms -/

/-- The natural logarithm of a number, by a logarithm of doubles.  It is nothing at one; a number
    that is beyond all doubles is halved until it is below one, and the halvings are counted. -/
def naturalLog (log : Float → Float) (n : Nat) : Except SolverError Float :=
  if n = 0 then .error .logOfZero
  else if n = 1 then .ok 0.0
  else match Decimal.ofNat? n with
    | some x => .ok (log x)
    | none =>
        let halvings := Nat.log2 n + 1
        let x := Decimal.nearest n (Nat.pow 2 halvings)
        if x == 1.0 then .ok (log 0.5 + log 2.0 * Decimal.nearest (halvings + 1) 1)
        else .ok (log x + log 2.0 * Decimal.nearest halvings 1)

/-- The logarithm of a number to a base, by a logarithm of doubles. -/
def logBaseBy (log : Float → Float) (base n : Nat) : Except SolverError Float := do
  let top ← naturalLog log n
  let bottom ← naturalLog log base
  if bottom == 0.0 then .error .baseOne else .ok (top / bottom)

/-- The logarithm of a number to a base. -/
def logBase (base n : Nat) : Except SolverError Float := logBaseBy Float.log base n

/-! ### Solutions -/

/-- A recurrence solved by the theorem. -/
structure Master where
  recurrence : Divide
  exponent : Float
  case : Case

namespace Master

/-- Applies the theorem to a recurrence, by a logarithm of doubles. -/
def ofDivide (log : Float → Float) (d : Divide) : Except SolverError Master := do
  let exponent ← logBaseBy log d.factor d.branches
  return ⟨d, exponent, ← Comparison.double.decide d.cost exponent⟩

/-- Applies the theorem to the recurrence in a text, if there is one, by a logarithm of
    doubles. -/
def solveBy (log : Float → Float) (s : String) : Except SolverError (Option Master) := do
  match ← Divide.read s with
  | some d => return some (← ofDivide log d)
  | none => return none

/-- The complexity that the theorem gives. -/
def complexity (m : Master) : String :=
  match m.case with
  | .one => "n^" ++ Decimal.twoPlacesBrief m.exponent
  | .two =>
      if m.exponent == 1.0 then "n log n"
      else "n^" ++ Decimal.twoPlacesBrief m.exponent ++ " log n"
  | .three => m.recurrence.cost

/-- The exponent as it is written in explanations. -/
def critical (m : Master) : String :=
  "n^(log_" ++ toString m.recurrence.factor ++ "(" ++ toString m.recurrence.branches ++ "))"

/-- Why the case applies. -/
def explanation (m : Master) : String :=
  let cost := m.recurrence.cost
  let conclusion := ". Por lo tanto, T(n) = Θ(" ++ m.complexity ++ ")"
  match m.case with
  | .one =>
      "Caso 1: f(n) = O(" ++ cost ++ ") < " ++ m.critical ++ " = n^"
        ++ Decimal.twoPlaces m.exponent ++ conclusion
  | .two => "Caso 2: f(n) = Θ(" ++ cost ++ ") = Θ(" ++ m.critical ++ ")" ++ conclusion
  | .three =>
      "Caso 3: f(n) = Ω(" ++ cost ++ ") > " ++ m.critical ++ " = n^"
        ++ Decimal.twoPlaces m.exponent ++ conclusion

/-- A solution as data. -/
def toValue (m : Master) : Value :=
  .dict [("success", .bool true), ("case", .int m.case.number),
    ("a", .int m.recurrence.branches), ("b", .int m.recurrence.factor),
    ("f_n", .str m.recurrence.cost), ("log_b_a", .float (Decimal.roundTwo m.exponent)),
    ("complexity", .str m.complexity), ("explanation", .str m.explanation)]

/-- What is answered for a text that was given as `given`, by a logarithm of doubles: the
    solution, or that there is no recurrence in it. -/
def reportBy (log : Float → Float) (given : Value) (s : String) : Except SolverError Value := do
  match ← solveBy log s with
  | some m => return m.toValue
  | none =>
      return .dict [("success", .bool false),
        ("error", .str ("No se pudo parsear la recurrencia. "
          ++ "Debe ser de la forma T(n) = aT(n/b) + O(f(n))")),
        ("recurrence", given)]

/-- What is answered for a text that was given as `given`. -/
def report (given : Value) (s : String) : Except SolverError Value := reportBy Float.log given s

end Master

end Ordo.Recurrence
