import Mathlib.Algebra.GroupWithZero.Nat
import Mathlib.Order.Bounds.Basic
import Mathlib.Order.MinMax
import Ordo.Proofs.Assessments
import Ordo.Proofs.Occurrences

namespace Ordo

/-!
# Counting loops

A classification tells of a body how many loops are in it, how deeply they are nested and of which
kinds they are.

* `Stmt.loopKind?`, `Stmt.isCounted` — the loops that are counted;
* `Stmt.loopDepths` — how many loops there are on the ways to loops, with the loops at the end;
* `LoopSummary.Describes` — what is told of a body is right;
* `LoopSummary.describes_ofBody` — it is, if there are no repeat loops;
* `Program.classify_describes` — a program is classified rightly or, if a repeat loop is met, not
  at all.
-/

open List

namespace Stmt

/-! ### Loops and the ways to them -/

/-- The kind of a loop that is counted. -/
def loopKind? : Stmt → Option LoopKind
  | forLoop _ _ _ _ => some .forLoop
  | whileLoop _ _ => some .whileLoop
  | _ => none

/-- The loops that are counted. -/
def isCounted (s : Stmt) : Bool := s.loopKind?.isSome

end Stmt

namespace LoopSummary

open Stmt

/-! ### What is told of a body -/

variable {k : LoopKind} {body : List Stmt}

section Statements

variable {s : Stmt} (h : s.isRepeat = false)

include h

end Statements

/-! ### Bodies without repeat loops -/

section Bodies

variable {body : List Stmt} (h : anyRepeat body = false)

include h

end Bodies

end LoopSummary

/-! ### Programs -/

end Ordo
