import Ordo.Analysis.Recursion

namespace Ordo

/-!
# Conditionals

* `Conditional` — a conditional with its condition, position and which branches recur;
* `Subroutine.conditionals` — the conditionals of a subroutine outside repeat loops.
-/

/-- A conditional of a subroutine. -/
structure Conditional where
  condition : Expr
  path : Path
  index : Nat
  recursThen : Bool
  recursElse : Bool

/-- A conditional seen from outside a part of a statement. -/
def Conditional.below (step : Step) (c : Conditional) : Conditional :=
  { c with path := step :: c.path }

mutual

/-- The conditionals at the statement with the given index. -/
def Stmt.conditionals (name : Name) (index : Nat) : Stmt → List Conditional
  | .ifThen condition body =>
      ⟨condition, [], index, Stmt.anyDirectCall name body, false⟩
        :: (Stmt.conditionalsFrom name 0 body).map (.below ⟨index, .thenBranch⟩)
  | .ifElse condition body otherwise =>
      ⟨condition, [], index, Stmt.anyDirectCall name body, Stmt.anyDirectCall name otherwise⟩
        :: ((Stmt.conditionalsFrom name 0 body).map (.below ⟨index, .thenBranch⟩)
          ++ (Stmt.conditionalsFrom name 0 otherwise).map (.below ⟨index, .elseBranch⟩))
  | .forLoop _ _ _ body => (Stmt.conditionalsFrom name 0 body).map (.below ⟨index, .forBody⟩)
  | .whileLoop _ body => (Stmt.conditionalsFrom name 0 body).map (.below ⟨index, .whileBody⟩)
  | _ => []

/-- The conditionals at several statements, of which the first has the given index. -/
def Stmt.conditionalsFrom (name : Name) (index : Nat) : List Stmt → List Conditional
  | [] => []
  | s :: ss => Stmt.conditionals name index s ++ Stmt.conditionalsFrom name (index + 1) ss

end

/-- The conditionals of a subroutine, in the order of its text. -/
def Subroutine.conditionals (s : Subroutine) : List Conditional :=
  Stmt.conditionalsFrom s.name 0 s.body

/-- A conditional as data. -/
def Conditional.report (c : Conditional) : Value :=
  .dict [("condition", c.condition.shortForm.toValue),
    ("position", .str (c.path.renderAt callLabel c.index)),
    ("has_recursion_then", .bool c.recursThen), ("has_recursion_else", .bool c.recursElse)]

end Ordo
