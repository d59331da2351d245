import Ordo.Analysis.Outcome
import Ordo.Program.Position
import Ordo.Program.Text

namespace Ordo

/-!
# Loops

* `LoopKind`, `LoopInfo` — loops with their bounds and positions;
* `Subroutine.loops` — the loops of a subroutine, in the order of its text;
* `Stmt.depth`, `Stmt.maxDepth` — how deeply loops are nested;
* `Stmt.operations` — an estimate of the work in a loop's body.
-/

/-- The kinds of loop that analyses enter. -/
inductive LoopKind
  | forLoop | whileLoop
  deriving DecidableEq, Repr

/-- The name of a kind of loop. -/
def LoopKind.name : LoopKind → String
  | forLoop => "FOR" | whileLoop => "WHILE"

/-- A loop with its variable and bounds as they are shown. -/
structure LoopInfo where
  kind : LoopKind
  counter : Name
  start : Name
  stop : Name
  /-- How many loops enclose it. -/
  level : Nat
  path : Path
  index : Nat

/-- A loop seen from outside a part of a statement. -/
def LoopInfo.below (step : Step) (l : LoopInfo) : LoopInfo := { l with path := step :: l.path }

mutual

/-- The loops at a statement, which has the given index and is inside so many loops. -/
def Stmt.loops (level index : Nat) : Stmt → List LoopInfo
  | .forLoop name start stop body =>
      ⟨.forLoop, name, start.shortForm, stop.shortForm, level, [], index⟩
        :: (Stmt.loopsFrom (level + 1) 0 body).map (.below ⟨index, .forBody⟩)
  | .whileLoop _ body =>
      ⟨.whileLoop, "condition-based", "unknown", "unknown", level, [], index⟩
        :: (Stmt.loopsFrom (level + 1) 0 body).map (.below ⟨index, .whileBody⟩)
  | .ifThen _ body => (Stmt.loopsFrom level 0 body).map (.below ⟨index, .thenBranch⟩)
  | .ifElse _ body otherwise =>
      (Stmt.loopsFrom level 0 body).map (.below ⟨index, .thenBranch⟩)
        ++ (Stmt.loopsFrom level 0 otherwise).map (.below ⟨index, .elseBranch⟩)
  | _ => []

/-- The loops at several statements, of which the first has the given index. -/
def Stmt.loopsFrom (level index : Nat) : List Stmt → List LoopInfo
  | [] => []
  | s :: ss => Stmt.loops level index s ++ Stmt.loopsFrom level (index + 1) ss

end

mutual

/-- The greatest number of loops around a body or branch that is reached from a statement. -/
def Stmt.depth (level : Nat) : Stmt → Nat
  | .forLoop _ _ _ body => Stmt.maxDepth (level + 1) body
  | .whileLoop _ body => Stmt.maxDepth (level + 1) body
  | .ifThen _ body => Stmt.maxDepth level body
  | .ifElse _ body otherwise => max (Stmt.maxDepth level body) (Stmt.maxDepth level otherwise)
  | _ => level

/-- The greatest number of loops around a body or branch that is reached from statements
    inside so many loops. -/
def Stmt.maxDepth (level : Nat) : List Stmt → Nat
  | [] => level
  | s :: ss => max (Stmt.depth level s) (Stmt.maxDepth level ss)

end

/-- The loops of a subroutine, and how deeply they are nested. -/
structure LoopAnalysis where
  loops : List LoopInfo
  nesting : Nat

/-- The loops of a subroutine, in the order of its text. -/
def Subroutine.loops (s : Subroutine) : Except AnalysisError LoopAnalysis :=
  whenWalkable s.body ⟨Stmt.loopsFrom 0 0 s.body, Stmt.maxDepth 0 s.body⟩

/-- Labels in the positions of loops. -/
def loopLabel : PartLabel
  | .call => "call" | .ret => "return" | .assignment => "assignment" | .condition => "condition"
  | .forBody | .whileBody => "body" | .thenBranch => "then" | .elseBranch => "else"

/-- A loop as data. -/
def LoopInfo.report (l : LoopInfo) : Value :=
  .dict [("type", .str l.kind.name), ("variable", l.counter.toValue),
    ("start", l.start.toValue), ("end", l.stop.toValue), ("nesting_level", .int l.level),
    ("position", .str (l.path.renderAt loopLabel l.index))]

/-- The loops of a subroutine as data. -/
def LoopAnalysis.report (a : LoopAnalysis) : Value :=
  .dict [("total_loops", .int a.loops.length), ("max_nesting", .int a.nesting),
    ("loops", .list (a.loops.map LoopInfo.report))]

/-- The work of a statement: a loop counts for ten operations. -/
def Stmt.operations : Stmt → Nat
  | .assign _ _ | .call _ _ => 1
  | .forLoop _ _ _ _ | .whileLoop _ _ | .repeatLoop _ _ => 10
  | _ => 0

/-- An estimate of the operations in a body, at least one. -/
def Stmt.totalOperations (body : List Stmt) : Nat :=
  max ((body.map Stmt.operations).foldr (· + ·) 0) 1

end Ordo
