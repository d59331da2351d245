import Ordo.Recurrence.Basic
import Ordo.Value.Text

namespace Ordo.Recurrence

/-!
# Substitution

Recurrences are expanded a few times, and a pattern is read off.

* `Substitution.steps`, `Substitution.pattern`, `Substitution.complexity` — the expansion of a
  linear recurrence;
* `Substitution.report` — a linear recurrence, solved;
* `Substitution.divideReport` — a dividing recurrence, expanded.
-/

namespace Substitution

/-- A cost as a factor: a constant is named. -/
def factorText (cost : String) : String := if cost = "1" then "c" else cost

/-- The recurrence: the argument of the call is `n` less the given decrement. -/
def firstLine (decrement cost : String) : String := "T(n) = T(n-" ++ decrement ++ ") + " ++ cost

/-- The line after the `i`-th step, with what has been taken off `n` by then and the cost of a
    step as a factor. -/
def stepLine (taken factor : String) (i : Nat) : String :=
  firstLine taken (toString i ++ "·" ++ factor)

/-- The recurrence and the steps of its expansion, `count` lines but at least one. -/
def steps (decrement : Int) (cost : String) (count : Int) : Except SolverError (List String) :=
  do
  let first := firstLine (← written decrement) cost
  let rest ← (List.range (count.toNat - 1)).mapM fun (i : Nat) => do
    return stepLine (← written (decrement * (i + 1 : Nat))) (factorText cost) (i + 1)
  return first :: rest

/-- The general form of the expansion, for a decrement and a factor with the given texts. -/
def patternOf (decrement factor : String) : String :=
  "T(n) = T(0) + (n/" ++ decrement ++ ")·" ++ factor

/-- The general form of the expansion. -/
def pattern (decrement : Int) (cost : String) : String :=
  patternOf (toString decrement) (factorText cost)

/-- The complexity of so many levels of the same cost, as a product. -/
def productOf (levels cost : String) : String := "O(" ++ levels ++ " × " ++ cost ++ ")"

/-- The complexity of so many levels of the same cost. -/
def complexityOf (levels cost : String) : String :=
  if cost = "1" then "O(n)"
  else if cost = "n" then "O(n²)"
  else if cost = "log n" then "O(n log n)"
  else productOf levels cost

/-- The number of levels, for a decrement with the given text that may exceed one. -/
def levelsOf (decrement : String) (exceedsOne : Bool) : String :=
  if exceedsOne then "n/" ++ decrement else "n"

/-- The complexity that the pattern gives. -/
def complexity (decrement : Int) (cost : String) : String :=
  complexityOf (levelsOf (toString decrement) (1 < decrement)) cost

/-- The expansion in words. -/
def explanation (l : Linear) (lines : List String) : String :=
  Value.joined "\n"
    (["Aplicando método de sustitución:", "Expandimos la recurrencia 4 veces:"]
      ++ lines.map ("  " ++ ·)
      ++ ["", "Observamos el patrón: " ++ pattern l.decrement l.cost,
        "Con n/" ++ toString l.decrement ++ " niveles hasta llegar al caso base",
        "Por lo tanto: " ++ complexity l.decrement l.cost])

/-- What is answered for a text that was given as `given`: the solution of the linear
    recurrence in it, or that there is none. -/
def report (given : Value) (s : String) : Except SolverError Value := do
  match ← Linear.read s with
  | some l =>
      let lines ← steps l.decrement l.cost 4
      return .dict [("success", .bool true), ("recurrence", given),
        ("decrement", .int l.decrement), ("cost", .str l.cost),
        ("steps", .list (lines.map .str)), ("pattern", .str (pattern l.decrement l.cost)),
        ("complexity", .str (complexity l.decrement l.cost)),
        ("explanation", .str (explanation l lines))]
  | none =>
      return .dict [("success", .bool false),
        ("error", .str ("No se pudo parsear la recurrencia. "
          ++ "Debe ser lineal: T(n) = T(n-k) + O(f(n))")),
        ("recurrence", given)]

/-! ### Dividing recurrences -/

/-- The form of dividing recurrence that is expanded: a coefficient right before the call. -/
def divideForm : Text.Template := head ++ [digits] ++ divided ++ plus ++ [anything]

/-- Reads a dividing recurrence. -/
def readDivide (s : String) : Except SolverError (Option Divide) :=
  match divideForm.search s.toList with
  | some runs => Divide.ofFit runs
  | none => .ok none

/-- The expansion of a dividing recurrence. -/
def divideSteps (d : Divide) : Except SolverError (List String) := do
  let a := toString d.branches
  let b := toString d.factor
  let a2 ← written (Nat.pow d.branches 2)
  let b2 ← written (Nat.pow d.factor 2)
  let f := d.cost
  return ["T(n) = " ++ a ++ "T(n/" ++ b ++ ") + " ++ f,
    "T(n) = " ++ a ++ "[" ++ a ++ "T(n/" ++ b2 ++ ") + " ++ f ++ "/" ++ b ++ "] + " ++ f,
    "T(n) = " ++ a2 ++ "T(n/" ++ b2 ++ ") + " ++ a ++ f ++ "/" ++ b ++ " + " ++ f,
    "...",
    "Patrón: Suma de " ++ f ++ " en cada nivel, con log_" ++ b ++ "(n) niveles"]

/-- What is answered for a text: the expansion of the dividing recurrence in it, or that there
    is none. -/
def divideReport (s : String) : Except SolverError Value := do
  match ← readDivide s with
  | some d =>
      let levels := "log_" ++ toString d.factor ++ "(n)"
      return .dict [("success", .bool true), ("a", .int d.branches), ("b", .int d.factor),
        ("f_n", .str d.cost), ("steps", .list ((← divideSteps d).map .str)),
        ("levels", .str levels),
        ("explanation", .str ("Expandiendo 3 niveles, observamos el patrón. Hay " ++ levels
          ++ " niveles en total.")),
        ("note", .str "Para mayor precisión, use el Teorema Maestro")]
  | none =>
      return .dict [("success", .bool false),
        ("error", .str "No se pudo parsear como recurrencia divide-y-conquista")]

end Substitution

end Ordo.Recurrence
