import Ordo.Analysis.Conditionals
import Ordo.Analysis.Loops
import Ordo.Program.Fault

namespace Ordo.Analysis

/-!
# Analyses of data

The analyses of subroutines, for data that may be no subroutine.  Each fails where the data
lack something that it asks for, in the order in which it asks.

* `DataError` — why there is no result;
* `selfCalls`, `baseCase`, `reduction`, `loops`, `operations`, `conditionals` — the analyses.
-/

/-- Why an analysis of data has no result. -/
inductive DataError
  | access (e : AccessError)
  | analysis (e : AnalysisError)
  deriving DecidableEq, Repr

/-- What is said when an analysis of data has no result. -/
def DataError.message : DataError → String
  | access e => e.message
  | analysis e => e.message

/-- The outcome of an analysis of data. -/
abbrev Outcome (α : Type) := Except DataError α

/-- What data hold, or why they cannot be read. -/
def ofData {α : Type} (r : Except AccessError α) : Outcome α := r.mapError .access

/-- Goes on, unless there is a fault. -/
def check (fault : Option AccessError) : Outcome Unit := ofData (Value.unlessFault fault ())

/-- A subroutine of which only the name and the body are known. -/
def named (name : Name) (body : Value) : Subroutine := ⟨name, [], [], Stmt.ofItems body⟩

/-- Why a value has no name. -/
def nameFault? (v : Value) : Option AccessError :=
  match v.part "name" with
  | .ok _ => none
  | .error e => some e

/-- The name of a value; empty if there is none. -/
def nameOf (v : Value) : Name := ((v.field? "name").map Name.ofValue).getD (.text "")

/-! ### Recursion -/

/-- The arguments of the first call to the named function that has any. -/
def argumentsOf (name : Name) : Value → Value
  | .node .functionCall [f, arguments] => if (Name.ofValue f).same name then arguments else .list []
  | .node .binaryOp [_, left, right] =>
      if (argumentsOf name left).isTrue then argumentsOf name left else argumentsOf name right
  | .node .unaryOp [_, operand] => argumentsOf name operand
  | _ => .list []

/-- Why arguments cannot be shown one by one. -/
def argumentsFault? : Value → Option AccessError
  | .list xs | .tuple xs => Value.shortFaultIn? xs
  | v => v.iterateFault?

/-- Why the arguments of a call in an expression cannot be shown, if there is a call. -/
def callFault? (name : Name) (value : Value) : Option AccessError :=
  if (Expr.ofValue value).hasCall name then argumentsFault? (argumentsOf name value) else none

/-- The walk that shows the arguments of calls to the named subroutine. -/
def argumentsWalk (name : Name) : Value.Walk where
  visit
    | .node .callStatement [f, arguments] =>
        if (Name.ofValue f).same name then argumentsFault? arguments else none
    | .node .returnStatement [value] => callFault? name value
    | .node .assignment [_, value] => callFault? name value
    | _ => none
  entersRepeat := true

/-- The subroutine in data whose calls to itself can be found and shown. -/
def caller (v : Value) : Outcome Subroutine := do
  let name := Name.ofValue (← ofData (v.part "name"))
  let body ← ofData (v.part "body")
  check (body.bodyFault? .plain)
  check (body.bodyFault? (argumentsWalk name))
  return named name body

/-- The calls of a subroutine to itself. -/
def selfCalls (v : Value) : Outcome (List SelfCall) := do
  (← caller v).selfCalls.mapError .analysis

/-- How a parameter shrinks.  It is looked for in every argument. -/
def reduction (v parameter : Value) : Outcome Reduction := do
  let calls ← (← caller v).selfCalls.mapError DataError.analysis
  calls.forM fun c => c.arguments.forM fun e => do
    let _ ← ofData (e.shortForm.toValue.includes parameter)
  return .ofCalls (.ofValue parameter) calls

/-- Why the statements of a block cannot be searched for calls to a subroutine, whose name is
    asked for on the way. -/
def blockFault? (nameFault : Option AccessError) : Value → Option AccessError
  | .node .block [statements] => nameFault.or statements.iterateFault?
  | v => some (.noAttribute v.className "statements")

/-- Why the first returned value among statements cannot be shown. -/
def returnFault? : List Value → Option AccessError
  | [] => none
  | .node .returnStatement [value] :: _ => value.shortFault?
  | _ :: rest => returnFault? rest

/-- Why the base case cannot be found among statements.  The search ends at the first. -/
def baseCaseFault? (name : Name) (nameFault : Option AccessError) :
    List Value → Option AccessError
  | [] => none
  | .node .ifStatement [condition, body, _] :: rest =>
      match blockFault? nameFault body with
      | some e => some e
      | none =>
          if Stmt.anyDirectCall name (Stmt.ofBlock body) then baseCaseFault? name nameFault rest
          else condition.shortFault?.or (returnFault? (body.itemsOf "statements"))
  | _ :: rest => baseCaseFault? name nameFault rest

/-- The base case of a subroutine. -/
def baseCase (v : Value) : Outcome (Option BaseCase) := do
  let body ← ofData (v.part "body")
  let items ← ofData body.iterate
  check (baseCaseFault? (nameOf v) (nameFault? v) items)
  return (named (nameOf v) body).baseCase

/-! ### Loops -/

/-- The walk that shows the bounds of loops. -/
def boundsWalk : Value.Walk where
  visit
    | .node .forLoop [_, start, stop, _] => start.shortFault?.or stop.shortFault?
    | _ => none
  entersRepeat := true

/-- The loops of a subroutine. -/
def loops (v : Value) : Outcome LoopAnalysis := do
  let body ← ofData (v.part "body")
  check (body.bodyFault? boundsWalk)
  (named (.text "") body).loops.mapError .analysis

/-- An estimate of the operations in a body. -/
def operations (body : Value) : Outcome Nat := do
  check body.iterateFault?
  return Stmt.totalOperations (Stmt.ofItems body)

/-! ### Conditionals -/

/-- The walk that shows conditions and searches branches for calls. -/
def conditionsWalk (nameFault : Option AccessError) : Value.Walk where
  visit
    | .node .ifStatement [condition, body, otherwise] =>
        condition.shortFault?.or ((blockFault? nameFault body).or
          (if otherwise.isTrue then blockFault? nameFault otherwise else none))
    | _ => none
  entersRepeat := false

/-- The conditionals of a subroutine. -/
def conditionals (v : Value) : Outcome (List Conditional) := do
  let body ← ofData (v.part "body")
  check (body.bodyFault? (conditionsWalk (nameFault? v)))
  return (named (nameOf v) body).conditionals

end Ordo.Analysis
