import Ordo.Program.Basic

namespace Ordo

/-!
# Positions in a body

A position leads from a body to a place in it, step by step: each step takes the statement with
an index and enters a part of it.

* `Part`, `Step`, `Path` — steps and paths;
* `Path.render` — a path as text, with labels for the parts.
-/

/-- The parts of statements that a position can enter or end in. -/
inductive Part
  | call | ret | assignment | condition | forBody | whileBody | thenBranch | elseBranch
  deriving DecidableEq, Repr

/-- A step: a part of the statement with the given index. -/
structure Step where
  index : Nat
  part : Part
  deriving DecidableEq, Repr

/-- Steps from a body to a place in it. -/
abbrev Path := List Step

/-- Labels of the parts, for one kind of position text. -/
abbrev PartLabel := Part → String

/-- A step as text. -/
def Step.render (label : PartLabel) (s : Step) : String :=
  "[" ++ toString s.index ++ "]." ++ label s.part

/-- A path as text. -/
def Path.render (label : PartLabel) (p : Path) : String :=
  "body" ++ String.join (p.map (Step.render label))

/-- A statement at the end of a path, as text. -/
def Path.renderAt (label : PartLabel) (p : Path) (index : Nat) : String :=
  p.render label ++ "[" ++ toString index ++ "]"

end Ordo
