import Ordo.Analysis.Loops
import Ordo.Program.Fault

namespace Ordo

/-!
# Classification of algorithms

An algorithm is iterative, recursive, both, or neither.

* `Expr.contains` — whether a function is called in an expression;
* `LoopSummary.ofBody` — the loops of a body: their number, kinds and nesting;
* `Stmt.recursionsFrom` — where a body calls a function;
* `Subroutine.classify`, `Program.classify` — the classification;
* `Classification.ofData` — the classification of data, which may be no program;
* `Classification.print` — its report as text.
-/

mutual

/-- Whether the named function is called in an expression: in operands, arguments, indices or
    below a rounding bracket. -/
def Expr.contains (name : Name) : Expr → Bool
  | .call f arguments => f.same name || Expr.anyContains name arguments
  | .binary _ left right => Expr.contains name left || Expr.contains name right
  | .unary _ operand => Expr.contains name operand
  | .var _ indices _ _ => Expr.anyContains name indices
  | .slice _ indices _ _ _ _ => Expr.anyContains name indices
  | .ceiling operand => Expr.contains name operand
  | .floor operand => Expr.contains name operand
  | _ => false

/-- Whether the named function is called in one of several expressions. -/
def Expr.anyContains (name : Name) : List Expr → Bool
  | [] => false
  | e :: es => Expr.contains name e || Expr.anyContains name es

end

/-! ### Loops -/

/-- The number of loops, how deeply they are nested, and their kinds. -/
structure LoopSummary where
  count : Nat
  nesting : Nat
  kinds : List LoopKind
  deriving DecidableEq, Repr

namespace LoopSummary

/-- No loops. -/
def empty : LoopSummary := ⟨0, 0, []⟩

/-- The loops of two parts together. -/
def both (a b : LoopSummary) : LoopSummary :=
  ⟨a.count + b.count, max a.nesting b.nesting,
    [LoopKind.forLoop, .whileLoop].filter fun k => k ∈ a.kinds || k ∈ b.kinds⟩

/-- A loop around a body. -/
def around (kind : LoopKind) (body : LoopSummary) : LoopSummary :=
  both ⟨1, 1, [kind]⟩ { body with nesting := body.nesting + 1 }

mutual

/-- The loops of a statement. -/
def ofStmt : Stmt → LoopSummary
  | .forLoop _ _ _ body => around .forLoop (ofBody body)
  | .whileLoop _ body => around .whileLoop (ofBody body)
  | .ifThen _ body => ofBody body
  | .ifElse _ body otherwise => both (ofBody body) (ofBody otherwise)
  | _ => empty

/-- The loops of a body. -/
def ofBody : List Stmt → LoopSummary
  | [] => empty
  | s :: ss => both (ofStmt s) (ofBody ss)

end

end LoopSummary

/-! ### Calls -/

/-- The position of an expression that calls the named function. -/
def Expr.recursion (name : Name) (step : Step) (e : Expr) : List Path :=
  if e.contains name then [[step]] else []

mutual

/-- Where the statement with the given index calls the named function. -/
def Stmt.recursions (name : Name) (index : Nat) : Stmt → List Path
  | .call f _ => if f.same name then [[⟨index, .call⟩]] else []
  | .ret value => value.recursion name ⟨index, .ret⟩
  | .assign _ value => value.recursion name ⟨index, .assignment⟩
  | .forLoop _ _ _ body => (Stmt.recursionsFrom name 0 body).map (⟨index, .forBody⟩ :: ·)
  | .whileLoop _ body => (Stmt.recursionsFrom name 0 body).map (⟨index, .whileBody⟩ :: ·)
  | .ifThen condition body =>
      condition.recursion name ⟨index, .condition⟩
        ++ (Stmt.recursionsFrom name 0 body).map (⟨index, .thenBranch⟩ :: ·)
  | .ifElse condition body otherwise =>
      condition.recursion name ⟨index, .condition⟩
        ++ (Stmt.recursionsFrom name 0 body).map (⟨index, .thenBranch⟩ :: ·)
        ++ (Stmt.recursionsFrom name 0 otherwise).map (⟨index, .elseBranch⟩ :: ·)
  | _ => []

/-- Where statements, of which the first has the given index, call the named function. -/
def Stmt.recursionsFrom (name : Name) (index : Nat) : List Stmt → List Path
  | [] => []
  | s :: ss => Stmt.recursions name index s ++ Stmt.recursionsFrom name (index + 1) ss

end

/-! ### Classification -/

/-- The types of algorithm. -/
inductive AlgorithmType
  | iterative | recursive | hybrid | simple
  deriving DecidableEq, Repr

namespace AlgorithmType

/-- The name of a type. -/
def name : AlgorithmType → String
  | iterative => "ITERATIVE" | recursive => "RECURSIVE" | hybrid => "HYBRID"
  | simple => "SIMPLE"

/-- The type of an algorithm with or without loops and recursion. -/
def ofFeatures (hasLoops hasRecursion : Bool) : AlgorithmType :=
  match hasLoops, hasRecursion with
  | true, true => hybrid
  | false, true => recursive
  | true, false => iterative
  | false, false => simple

end AlgorithmType

/-- The classification of a subroutine. -/
structure SubroutineClass where
  name : Name
  parameters : List Name
  loops : LoopSummary
  recursions : List Path

namespace SubroutineClass

/-- Whether there are loops. -/
def hasLoops (c : SubroutineClass) : Bool := 0 < c.loops.count

/-- Whether there is recursion. -/
def hasRecursion (c : SubroutineClass) : Bool := !c.recursions.isEmpty

/-- The type of a subroutine. -/
def type (c : SubroutineClass) : AlgorithmType := .ofFeatures c.hasLoops c.hasRecursion

end SubroutineClass

/-- The classification of a subroutine. -/
def Subroutine.classify (s : Subroutine) : Except AnalysisError SubroutineClass :=
  whenWalkable s.body
    ⟨s.name, s.parameters.map Parameter.name, .ofBody s.body,
      Stmt.recursionsFrom s.name 0 s.body⟩

/-- The classification of a program: the loops of its main algorithm, and its subroutines. -/
structure Classification where
  main : LoopSummary
  subroutines : List SubroutineClass

/-- The classification of a program. -/
def Program.classify (p : Program) : Except AnalysisError Classification := do
  let main ← whenWalkable p.body (LoopSummary.ofBody p.body)
  return ⟨main, ← p.subroutines.mapM Subroutine.classify⟩

/-! ### Data that may be no program -/

mutual

/-- Why it cannot be told whether the named function is called in an expression.  The search
    ends at the first call. -/
def Value.containsFault? (name : Name) : Value → Option AccessError
  | .node .functionCall [f, arguments] =>
      if (Name.ofValue f).same name then Option.none else Value.containsItemsFault? name arguments
  | .node .binaryOp [_, left, right] =>
      (Value.containsFault? name left).or
        (if (Expr.ofValue left).contains name then Option.none
          else Value.containsFault? name right)
  | .node .unaryOp [_, operand] => Value.containsFault? name operand
  | .node .var [_, indices, _, _, _, _, _] =>
      if indices.isTrue then Value.containsItemsFault? name indices else Option.none
  | .node .ceiling [operand] => Value.containsFault? name operand
  | .node .floor [operand] => Value.containsFault? name operand
  | _ => Option.none

/-- Why it cannot be told whether the named function is called in an item of a value. -/
def Value.containsItemsFault? (name : Name) : Value → Option AccessError
  | .list xs => Value.containsFaultIn? name xs
  | .tuple xs => Value.containsFaultIn? name xs
  | v => v.iterateFault?

/-- Why it cannot be told whether the named function is called in one of several
    expressions. -/
def Value.containsFaultIn? (name : Name) : List Value → Option AccessError
  | [] => Option.none
  | v :: vs =>
      (Value.containsFault? name v).or
        (if (Expr.ofValue v).contains name then Option.none
          else Value.containsFaultIn? name vs)

end

/-- The walk that looks for calls to the named function. -/
def recursionWalk (name : Name) : Value.Walk where
  visit
    | .node .returnStatement [value] => value.containsFault? name
    | .node .assignment [_, value] => value.containsFault? name
    | .node .ifStatement (condition :: _) => condition.containsFault? name
    | _ => none
  entersRepeat := true

/-- The classification of a subroutine in data. -/
def SubroutineClass.ofData (v : Value) : Except AccessError SubroutineClass := do
  let body ← v.part "body"
  Value.unlessFault (body.bodyFault? .plain) ()
  let name := Name.ofValue (← v.part "name")
  Value.unlessFault (body.bodyFault? (recursionWalk name)) ()
  let parameters ← (← (← v.part "parameters").iterate).mapM (·.part "name")
  let statements := Stmt.ofItems body
  return ⟨name, parameters.map Name.ofValue, .ofBody statements,
    Stmt.recursionsFrom name 0 statements⟩

/-- The classification of a program in data. -/
def Classification.ofData (v : Value) : Except AccessError Classification := do
  let algorithm ← v.part "algorithm"
  let main ← algorithm.part "main"
  let body ← main.part "body"
  Value.unlessFault (body.bodyFault? .plain) ()
  let subroutines ← (← algorithm.part "subroutines").iterate
  return ⟨.ofBody (Stmt.ofItems body), ← subroutines.mapM SubroutineClass.ofData⟩

/-! ### Data -/

/-- Labels in the positions of recursion. -/
def recursionLabel : PartLabel
  | .call => "call" | .ret => "return" | .assignment => "assignment"
  | .condition => "if_condition" | .forBody => "for_body" | .whileBody => "while_body"
  | .thenBranch => "then" | .elseBranch => "else"

/-- The classification of a subroutine as data. -/
def SubroutineClass.toValue (c : SubroutineClass) : Value :=
  .dict [("name", c.name.toValue), ("type", .str c.type.name),
    ("parameters", .list (c.parameters.map Name.toValue)),
    ("details", .dict [
      ("has_loops", .bool c.hasLoops), ("has_recursion", .bool c.hasRecursion),
      ("loop_count", .int c.loops.count),
      ("loop_types", .list (c.loops.kinds.map fun k => .str k.name)),
      ("max_nesting", .int c.loops.nesting), ("recursive_calls", .int c.recursions.length),
      ("recursive_positions",
        .list (c.recursions.map fun p => .str (p.render recursionLabel)))])]

/-- The classification of the main algorithm as data. -/
def mainClassValue (main : LoopSummary) : Value :=
  if 0 < main.count then
    .dict [("type", .str AlgorithmType.iterative.name), ("loop_count", .int main.count),
      ("max_nesting", .int main.nesting)]
  else .dict [("type", .str AlgorithmType.simple.name), ("loop_count", .int 0)]

/-- The classification of a program as data. -/
def Classification.toValue (c : Classification) : Value :=
  .dict [("main", mainClassValue c.main),
    ("subroutines", .list (c.subroutines.map SubroutineClass.toValue))]

/-! ### Report -/

namespace Classification

/-- A line across the report. -/
def rule : String := String.ofList (List.replicate 70 '=') ++ "\n"

/-- The lines about the main algorithm. -/
def printMain (main : Value) : Except AccessError String := do
  let type ← main.entry "type"
  let head := "\n🏠 ALGORITMO PRINCIPAL:\n   Tipo: " ++ (← type.shown) ++ "\n"
  if type.isText AlgorithmType.iterative.name then
    let loops ← (← main.entry "loop_count").shown
    let nesting ← (← main.entry "max_nesting").shown
    return head ++ "   Loops: " ++ loops ++ "\n" ++ "   Anidamiento máximo: " ++ nesting ++ "\n"
  else return head

/-- Texts of a list with commas between them. -/
def listed (v : Value) : Except AccessError String := do
  return Value.joined ", " (← v.texts)

/-- The lines about the loops of a subroutine. -/
def printLoops (details : Value) : Except AccessError String := do
  if (← details.entry "has_loops").isTrue then
    let count ← (← details.entry "loop_count").shown
    let kinds ← listed (← details.entry "loop_types")
    let nesting ← (← details.entry "max_nesting").shown
    return "      ✓ Loops: " ++ count ++ " (" ++ kinds ++ ")\n"
      ++ "      ✓ Anidamiento: " ++ nesting ++ " niveles\n"
  else return ""

/-- The lines about the recursion of a subroutine. -/
def printRecursion (details : Value) : Except AccessError String := do
  if (← details.entry "has_recursion").isTrue then
    let count ← (← details.entry "recursive_calls").shown
    let places ← listed (← details.entry "recursive_positions")
    return "      ✓ Llamadas recursivas: " ++ count ++ "\n"
      ++ "      ✓ Posiciones: " ++ places ++ "\n"
  else return ""

/-- The lines about a subroutine. -/
def printSubroutine (sub : Value) : Except AccessError String := do
  let name ← (← sub.entry "name").shown
  let parameters ← listed (← sub.entry "parameters")
  let type ← (← sub.entry "type").shown
  let details ← sub.entry "details"
  let loops ← printLoops details
  let recursion ← printRecursion details
  return "\n   🔹 " ++ name ++ "(" ++ parameters ++ ")\n" ++ "      Tipo: " ++ type ++ "\n"
    ++ loops ++ recursion

/-- The lines about the subroutines, if there are any. -/
def printSubroutines (subs : Value) : Except AccessError String := do
  if subs.isTrue then
    return "\n📦 SUBRUTINAS:\n" ++ String.join (← (← subs.iterate).mapM printSubroutine)
  else return ""

/-- The lines about an entry, if there is one. -/
def printEntry (classification : Value) (name : String)
    (lines : Value → Except AccessError String) : Except AccessError String := do
  if ← classification.holds name then lines (← classification.entry name) else return ""

/-- The report of a classification. -/
def print (classification : Value) : Except AccessError String := do
  let main ← printEntry classification "main" printMain
  let subs ← printEntry classification "subroutines" printSubroutines
  return "\n" ++ rule ++ "📊 CLASIFICACIÓN DE ALGORITMOS\n" ++ rule ++ main ++ subs ++ "\n"
    ++ rule

end Classification

end Ordo
