import Ordo.Agent.Tool
import Ordo.Analysis.Data
import Ordo.Solver

namespace Ordo

/-!
# Running tools

A tool is run on arguments that the model names.  What goes wrong with it is told to the model
as its result.

* `ToolError`, `ToolError.message` — what goes wrong;
* `Tool.run` — the result of a tool;
* `Tool.answer` — the result, or an account of what went wrong.
-/

/-- Why a tool has no result. -/
inductive ToolError
  | arguments (e : ArgumentError)
  | analysis (e : Analysis.DataError)
  | solver (e : SolverFault)
  deriving DecidableEq, Repr

/-- What is told about a failure. -/
def ToolError.message : ToolError → String
  | arguments e => e.message
  | analysis e => e.message
  | solver e => e.message

namespace Tool

/-- The outcome of a tool. -/
abbrev Outcome (α : Type) := Except ToolError α

/-- The parameters of a tool. -/
def signature (t : Tool) : Signature where
  procedure := t.callName
  required := t.parameters.map ToolParameter.name

/-- A result about a program, or why there is none. -/
def ofAnalysis {α : Type} (r : Analysis.Outcome α) : Outcome α := r.mapError .analysis

/-- A result about an equation, or why there is none. -/
def ofSolver (r : Solver.Outcome Value) : Outcome Value := r.mapError .solver

/-- The result of a tool on the arguments for its parameters. -/
def compute : Tool → List Value → Outcome Value
  | selfCalls, [s] => do return SelfCall.report (← ofAnalysis (Analysis.selfCalls s))
  | baseCase, [s] => do return BaseCase.report (← ofAnalysis (Analysis.baseCase s))
  | reduction, [s, p] => do return (← ofAnalysis (Analysis.reduction s p)).report
  | loops, [s] => do return (← ofAnalysis (Analysis.loops s)).report
  | operations, [body] => do return .int (← ofAnalysis (Analysis.operations body))
  | conditionals, [s] => do
      return .list ((← ofAnalysis (Analysis.conditionals s)).map Conditional.report)
  | master, arguments => ofSolver (Solver.master.run arguments)
  | summation, arguments => ofSolver (Solver.summation.run arguments)
  | substitution, arguments => ofSolver (Solver.substitution.run arguments)
  | recursionTree, arguments => ofSolver (Solver.recursionTree.run arguments)
  | t, given => .error (.arguments (.missing t.callName (t.signature.required.drop given.length)))

/-- The arguments of a tool, which have to be given by name. -/
def bind (t : Tool) (input : Value) : Outcome (List Value) :=
  match input with
  | .dict arguments => (t.signature.byName t.fixed arguments).mapError .arguments
  | v => .error (.arguments (.notNamed t.qualifiedName v.className))

/-- The result of a tool on named arguments. -/
def run (t : Tool) (input : Value) : Outcome Value := do t.compute (← t.bind input)

/-- What the model is told: the result of a tool, or what went wrong and with which
    arguments. -/
def answer (t : Tool) (input : Value) : Value :=
  match t.run input with
  | .ok v => v
  | .error e => .dict [("error", .str e.message), ("tool", .str t.name), ("input", input)]

end Tool

end Ordo
