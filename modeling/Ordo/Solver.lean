import Ordo.Arguments
import Ordo.Recurrence.Master
import Ordo.Recurrence.Substitution
import Ordo.Recurrence.Tree
import Ordo.Summation
import Ordo.Value.Shown

namespace Ordo

/-!
# Solvers

The procedures on equations can be asked for by name, on arguments that may be any data.  What
is no text is refused where a text is read; a decrement or cost may be anything that has a text.

* `Solver` — the procedures, with their names and parameters;
* `SolverFault` — why a procedure has no result;
* `Solver.run` — the result for arguments given in a row.
-/

/-! ### Numbers in data -/

namespace Value

/-- A value so many times: a multiple of a number, or a text or list repeated. -/
def times (n : Nat) : Value → Except AccessError Value
  | int i => .ok (int (i * n))
  | bool b => .ok (int (if b then n else 0))
  | float f => .ok (float (f * Decimal.nearest n 1))
  | str s => .ok (str (String.join (List.replicate n s)))
  | token _ s => .ok (str (String.join (List.replicate n s)))
  | list xs => .ok (list (List.replicate n xs).flatten)
  | tuple xs => .ok (tuple (List.replicate n xs).flatten)
  | v => .error (.badOperands "*" v.className "int")

/-- Whether a number is greater than one. -/
def exceedsOne : Value → Except AccessError Bool
  | int i => .ok (1 < i)
  | bool _ => .ok false
  | float f => .ok (1.0 < f)
  | v => .error (.notComparable v.className "int")

/-- A number that counts something. -/
def count : Value → Except AccessError Int
  | int i => .ok i
  | bool b => .ok (if b then 1 else 0)
  | v => .error (.notCount v.className)

/-- A number as an exponent. -/
def exponent : Value → Except AccessError Recurrence.Exponent
  | int i => .ok (.whole i)
  | bool b => .ok (.whole (if b then 1 else 0))
  | float f => .ok (.real f)
  | v => .error (.badOperands "-" v.className "float")

end Value

/-! ### Procedures -/

/-- The procedures on equations. -/
inductive Solver
  | readDivide | compareCost | master | recursionTree
  | readLinear | steps | pattern | complexity | substitution | divideSubstitution
  | normalize | readNested | solveNested | summation | complexityOrder
  deriving DecidableEq, Repr

/-- Why a procedure has no result. -/
inductive SolverFault
  | arguments (e : ArgumentError)
  | access (e : AccessError)
  | equation (e : Recurrence.SolverError)
  deriving DecidableEq, Repr

/-- What is said when a procedure has no result. -/
def SolverFault.message : SolverFault → String
  | arguments e => e.message
  | access e => e.message
  | equation e => e.message

namespace Solver

/-- Every procedure. -/
def all : List Solver :=
  [readDivide, compareCost, master, recursionTree, readLinear, steps, pattern, complexity,
   substitution, divideSubstitution, normalize, readNested, solveNested, summation,
   complexityOrder]

/-- The name of a procedure. -/
def name : Solver → String
  | readDivide => "extract_recurrence_params"
  | compareCost => "compare_functions"
  | master => "apply_master_theorem"
  | recursionTree => "analyze_recursion_tree"
  | readLinear => "extract_linear_recurrence"
  | steps => "generate_substitution_steps"
  | pattern => "determine_pattern"
  | complexity => "calculate_complexity_from_pattern"
  | substitution => "solve_by_substitution"
  | divideSubstitution => "solve_divide_conquer_substitution"
  | normalize => "normalize_summation"
  | readNested => "identify_nested_summation"
  | solveNested => "solve_nested_summation"
  | summation => "simplify_summation"
  | complexityOrder => "extract_complexity_order"

/-- The procedure with a given name. -/
def ofName? (s : String) : Option Solver := all.find? (·.name == s)

/-- The names of the parameters that have to be given. -/
def required : Solver → List String
  | compareCost => ["f_n", "n_log_b_a"]
  | steps | pattern | complexity => ["decrement", "cost"]
  | normalize | readNested | summation => ["summation"]
  | solveNested => ["nested_info"]
  | complexityOrder => ["complexity_str"]
  | _ => ["recurrence"]

/-- The parameters of a procedure.  An expansion has four lines if nothing else is asked. -/
def signature (s : Solver) : Signature where
  procedure := s.name
  required := s.required
  defaults := if s = steps then [.int 4] else []

/-- The outcome of a procedure. -/
abbrev Outcome (α : Type) := Except SolverFault α

/-- What data hold, or why they cannot be used. -/
def ofData {α : Type} (r : Except AccessError α) : Outcome α := r.mapError .access

/-- A result about an equation, or why there is none. -/
def ofEquation {α : Type} (r : Except Recurrence.SolverError α) : Outcome α :=
  r.mapError .equation

/-- Something that may be absent, as data. -/
def orNone {α : Type} (f : α → Value) : Option α → Value
  | some a => f a
  | none => .none

/-- The text of a multiple; a whole number may be too long for one. -/
def multipleText (v : Value) : Outcome String :=
  match v with
  | .int i => ofEquation (Recurrence.written i)
  | v => ofData v.shown

/-- The case for a cost and an exponent, which is looked at only if the order of the cost is
    known. -/
def caseOf (cost exponent : Value) : Outcome Recurrence.Case := do
  let cost ← ofData (cost.textFor "lower")
  match ← ofEquation (Recurrence.CostOrder.read cost) with
  | some o =>
      let e ← ofData exponent.exponent
      ofEquation (Recurrence.Comparison.mixed.caseOf o e)
  | none => return .two

/-- The text of a cost as a factor.  Only a text is a named cost: the number one is written as it
    is. -/
def factorOf (cost : Value) : Outcome String :=
  match cost.text? with
  | some s => .ok (Recurrence.Substitution.factorText s)
  | none => ofData cost.shown

/-- The lines of an expansion. -/
def expansion (decrement cost lines : Value) : Outcome (List String) := do
  let first ← multipleText decrement
  let costText ← ofData cost.shown
  let factor ← factorOf cost
  let lines ← ofData lines.count
  let rest ← (List.range (lines.toNat - 1)).mapM fun i => do
    let taken ← multipleText (← ofData (decrement.times (i + 1)))
    return Recurrence.Substitution.stepLine taken factor (i + 1)
  return Recurrence.Substitution.firstLine first costText :: rest

/-- The general form of an expansion. -/
def patternText (decrement cost : Value) : Outcome String := do
  return Recurrence.Substitution.patternOf (← ofData decrement.shown) (← factorOf cost)

/-- The complexity that the general form gives. -/
def complexityText (decrement cost : Value) : Outcome String := do
  let exceeds ← ofData decrement.exceedsOne
  let levels := Recurrence.Substitution.levelsOf
    (← if exceeds then ofData decrement.shown else .ok "") exceeds
  match cost.text? with
  | some s => return Recurrence.Substitution.complexityOf levels s
  | none => return Recurrence.Substitution.productOf levels (← ofData cost.shown)

/-- The place of a complexity in the order. -/
def orderOf (complexity : Value) : Outcome Value :=
  match complexity.text?, complexity.keyFault? with
  | some s, _ => .ok (Summation.orderOf s)
  | none, some e => .error (.access e)
  | none, none => .ok (.int 1)

/-- The result of a procedure on the arguments for its parameters. -/
def compute : Solver → List Value → Outcome Value
  | readDivide, [v] => do
      let s ← ofData (v.textFor "strip")
      return orNone Recurrence.Divide.toValue (← ofEquation (Recurrence.Divide.read s))
  | compareCost, [cost, exponent] => do return .str (← caseOf cost exponent).name
  | master, [v] => do
      ofEquation (Recurrence.Master.report v (← ofData (v.textFor "strip")))
  | recursionTree, [v] => do ofEquation (Recurrence.Tree.report (← ofData v.searchable))
  | readLinear, [v] => do
      let s ← ofData v.searchable
      return orNone Recurrence.Linear.toValue (← ofEquation (Recurrence.Linear.read s))
  | steps, [decrement, cost, lines] => do
      return .list ((← expansion decrement cost lines).map .str)
  | pattern, [decrement, cost] => do return .str (← patternText decrement cost)
  | complexity, [decrement, cost] => do return .str (← complexityText decrement cost)
  | substitution, [v] => do
      ofEquation (Recurrence.Substitution.report v (← ofData v.searchable))
  | divideSubstitution, [v] => do
      ofEquation (Recurrence.Substitution.divideReport (← ofData v.searchable))
  | normalize, [v] => do return .str (Summation.normalize (← ofData (v.textFor "split")))
  | readNested, [v] => do
      return orNone Summation.Nested.toValue (Summation.Nested.read (← ofData v.searchable))
  | solveNested, [v] => ofData (Summation.Nested.solveData v)
  | summation, [v] => do return Summation.report v (← ofData (v.textFor "split"))
  | complexityOrder, [v] => orderOf v
  | s, given => .error (.arguments (.missing s.name (s.required.drop given.length)))

/-- The result of a procedure on arguments given in a row. -/
def run (s : Solver) (arguments : List Value) : Outcome Value := do
  s.compute (← (s.signature.inOrder arguments).mapError SolverFault.arguments)

end Solver

end Ordo
