import Ordo.Program.Basic

namespace Ordo

/-!
# Outcomes of analyses

Analyses that walk a whole body do not enter repeat loops: where one is met, they fail.

* `AnalysisError` — why an analysis fails;
* `Stmt.hasRepeat`, `Stmt.anyRepeat` — whether a repeat loop is met;
* `whenWalkable` — an analysis of a body that is met by none.
-/

/-- Why an analysis fails. -/
inductive AnalysisError
  | repeatLoop
  deriving DecidableEq, Repr

/-- What is said about a failed analysis. -/
def AnalysisError.message : AnalysisError → String
  | repeatLoop => "'RepeatLoop' object has no attribute 'statements'"

mutual

/-- Whether a statement is a repeat loop or leads to one, through loop bodies and branches. -/
def Stmt.hasRepeat : Stmt → Bool
  | .repeatLoop _ _ => true
  | .forLoop _ _ _ body => Stmt.anyRepeat body
  | .whileLoop _ body => Stmt.anyRepeat body
  | .ifThen _ body => Stmt.anyRepeat body
  | .ifElse _ body otherwise => Stmt.anyRepeat body || Stmt.anyRepeat otherwise
  | _ => false

/-- Whether a repeat loop is met among several statements. -/
def Stmt.anyRepeat : List Stmt → Bool
  | [] => false
  | s :: ss => Stmt.hasRepeat s || Stmt.anyRepeat ss

end

/-- The result of a walk of a body, if it meets no repeat loop. -/
def whenWalkable {α : Type} (body : List Stmt) (result : α) : Except AnalysisError α :=
  if Stmt.anyRepeat body then .error .repeatLoop else .ok result

end Ordo
