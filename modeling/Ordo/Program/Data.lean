import Ordo.Program.Basic
import Ordo.Value.Access

namespace Ordo

/-!
# Programs as data

Syntax nodes are exchanged as values.  A value can be read as an expression or statement, and
written back.

* `Expr.ofValue`, `Expr.toValue` — expressions;
* `Stmt.ofValue`, `Stmt.toValue` — statements;
* `Subroutine.ofValue?`, `Subroutine.toValue`, `Program.read`, `Program.toValue` — larger
  parts.

Reading is lenient: an operator that is no text is read by its text, and what has no items where
statements or expressions are due is read as none.
-/

/-- A text where one is due: any value by its text, nothing if it counts as false. -/
def Value.presentText? (v : Value) : Option String := if v.isTrue then some v.text else Option.none

mutual

/-- The expression that a value stands for.  Operators are read by their text, and a variable
    whose indices have no items is none. -/
def Expr.ofValue : Value → Expr
  | .node .number [.int i] => .number (.whole i)
  | .node .number [.float f] => .number (.real f)
  | .node .boolean [.bool b] => .boolean b
  | .node .null [] => .null
  | .node .var [name, indices, field, fieldIndices, ranged, start, stop] =>
      if indices.isTrue && !indices.hasItems then
        .other (.node .var [name, indices, field, fieldIndices, ranged, start, stop])
      else if ranged.isTrue then
        .slice (.ofValue name) (Expr.ofItems indices) field.presentText?
          (Expr.ofItems fieldIndices) (Expr.ofValue start) (Expr.ofValue stop)
      else
        .var (.ofValue name) (Expr.ofItems indices) field.presentText?
          (Expr.ofItems fieldIndices)
  | .node .binaryOp [operator, left, right] =>
      .binary operator.text (Expr.ofValue left) (Expr.ofValue right)
  | .node .unaryOp [operator, operand] => .unary operator.text (Expr.ofValue operand)
  | .node .functionCall [name, arguments] => .call (.ofValue name) (Expr.ofItems arguments)
  | .node .length [operand] => .length (Expr.ofValue operand)
  | .node .ceiling [operand] => .ceiling (Expr.ofValue operand)
  | .node .floor [operand] => .floor (Expr.ofValue operand)
  | v => .other v

/-- The expressions that the items of a value stand for; none if it has no items. -/
def Expr.ofItems : Value → List Expr
  | .list xs => Expr.ofValues xs
  | .tuple xs => Expr.ofValues xs
  | .dict es => es.map fun e => .other (.str e.1)
  | .str s => s.toList.map fun c => .other (.str (String.singleton c))
  | .token _ s => s.toList.map fun c => .other (.str (String.singleton c))
  | _ => []

/-- The expressions that several values stand for. -/
def Expr.ofValues : List Value → List Expr
  | [] => []
  | v :: vs => Expr.ofValue v :: Expr.ofValues vs

end

/-- A number as a value. -/
def Numeral.toValue : Numeral → Value
  | whole i => .int i
  | real f => .float f

/-- A field as a value. -/
def fieldValue : Option String → Value
  | some f => .str f
  | none => .none

/-- Indices as a value: a list, or nothing if there are none. -/
def indicesValue (vs : List Value) : Value := if vs.isEmpty then .none else .list vs

mutual

/-- An expression as a value. -/
def Expr.toValue : Expr → Value
  | .number n => .node .number [n.toValue]
  | .boolean b => .node .boolean [.bool b]
  | .null => .node .null []
  | .var name indices field fieldIndices =>
      .node .var [name.toValue, indicesValue (Expr.toValues indices), fieldValue field,
        indicesValue (Expr.toValues fieldIndices), .bool false, .none, .none]
  | .slice name indices field fieldIndices start stop =>
      .node .var [name.toValue, indicesValue (Expr.toValues indices), fieldValue field,
        indicesValue (Expr.toValues fieldIndices), .bool true, Expr.toValue start,
        Expr.toValue stop]
  | .binary operator left right =>
      .node .binaryOp [.str operator, Expr.toValue left, Expr.toValue right]
  | .unary operator operand => .node .unaryOp [.str operator, Expr.toValue operand]
  | .call name arguments => .node .functionCall [name.toValue, .list (Expr.toValues arguments)]
  | .length operand => .node .length [Expr.toValue operand]
  | .ceiling operand => .node .ceiling [Expr.toValue operand]
  | .floor operand => .node .floor [Expr.toValue operand]
  | .other v => v

/-- Several expressions as values. -/
def Expr.toValues : List Expr → List Value
  | [] => []
  | e :: es => Expr.toValue e :: Expr.toValues es

end

mutual

/-- The statement that a value stands for. -/
def Stmt.ofValue : Value → Stmt
  | .node .assignment [target, value] => .assign (Expr.ofValue target) (Expr.ofValue value)
  | .node .forLoop [name, start, stop, body] =>
      .forLoop (.ofValue name) (Expr.ofValue start) (Expr.ofValue stop) (Stmt.ofBlock body)
  | .node .whileLoop [condition, body] =>
      .whileLoop (Expr.ofValue condition) (Stmt.ofBlock body)
  | .node .repeatLoop [body, condition] =>
      .repeatLoop (Stmt.ofItems body) (Expr.ofValue condition)
  | .node .ifStatement [condition, body, otherwise] =>
      if otherwise.isTrue then
        .ifElse (Expr.ofValue condition) (Stmt.ofBlock body) (Stmt.ofBlock otherwise)
      else .ifThen (Expr.ofValue condition) (Stmt.ofBlock body)
  | .node .callStatement [name, arguments] => .call (.ofValue name) (Expr.ofItems arguments)
  | .node .returnStatement [value] => .ret (Expr.ofValue value)
  | .node .comment [text] => .comment text.text
  | v => .other v

/-- The statements of a block; none in anything else. -/
def Stmt.ofBlock : Value → List Stmt
  | .node .block [statements] => Stmt.ofItems statements
  | _ => []

/-- The statements that the items of a value stand for; none if it has no items. -/
def Stmt.ofItems : Value → List Stmt
  | .list xs => Stmt.ofValues xs
  | .tuple xs => Stmt.ofValues xs
  | .dict es => es.map fun e => .other (.str e.1)
  | .str s => s.toList.map fun c => .other (.str (String.singleton c))
  | .token _ s => s.toList.map fun c => .other (.str (String.singleton c))
  | _ => []

/-- The statements that several values stand for. -/
def Stmt.ofValues : List Value → List Stmt
  | [] => []
  | v :: vs => Stmt.ofValue v :: Stmt.ofValues vs

end

/-- A block as a value. -/
def blockValue (vs : List Value) : Value := .node .block [.list vs]

mutual

/-- A statement as a value. -/
def Stmt.toValue : Stmt → Value
  | .assign target value => .node .assignment [target.toValue, value.toValue]
  | .forLoop name start stop body =>
      .node .forLoop [name.toValue, start.toValue, stop.toValue, blockValue (Stmt.toValues body)]
  | .whileLoop condition body =>
      .node .whileLoop [condition.toValue, blockValue (Stmt.toValues body)]
  | .repeatLoop body condition =>
      .node .repeatLoop [.list (Stmt.toValues body), condition.toValue]
  | .ifThen condition body =>
      .node .ifStatement [condition.toValue, blockValue (Stmt.toValues body), .none]
  | .ifElse condition body otherwise =>
      .node .ifStatement [condition.toValue, blockValue (Stmt.toValues body),
        blockValue (Stmt.toValues otherwise)]
  | .call name arguments =>
      .node .callStatement [name.toValue, .list (Expr.toValues arguments)]
  | .ret value => .node .returnStatement [value.toValue]
  | .comment text => .node .comment [.str text]
  | .other v => v

/-- Several statements as values. -/
def Stmt.toValues : List Stmt → List Value
  | [] => []
  | s :: ss => Stmt.toValue s :: Stmt.toValues ss

end

/-- The parameter that a value stands for: anything that has a name. -/
def Parameter.ofValue? (v : Value) : Option Parameter :=
  match v with
  | .node .parameter [name, .str "array", _, .int d] => some ⟨.ofValue name, .array d.toNat⟩
  | .node .parameter [name, .str "object", .str c, _] => some ⟨.ofValue name, .object c⟩
  | v => (v.field? "name").map fun name => ⟨.ofValue name, .simple⟩

/-- A parameter as a value. -/
def Parameter.toValue (p : Parameter) : Value :=
  match p.kind with
  | .simple => .node .parameter [p.name.toValue, .str "simple", .none, .none]
  | .array d => .node .parameter [p.name.toValue, .str "array", .none, .int d]
  | .object c => .node .parameter [p.name.toValue, .str "object", .str c, .none]

/-- The declaration that a value stands for. -/
def Declaration.ofValue? : Value → Option Declaration
  | .node .declaration [.str name, .str "array", size, _] =>
      some (.array name (Expr.ofValue size))
  | .node .declaration [.str name, .str "object", _, .str c] => some (.object c name)
  | _ => none

/-- A declaration as a value. -/
def Declaration.toValue : Declaration → Value
  | array name size => .node .declaration [.str name, .str "array", size.toValue, .none]
  | object c name => .node .declaration [.str name, .str "object", .none, .str c]

/-- The class that a value stands for. -/
def ClassDefinition.ofValue? : Value → Option ClassDefinition
  | .node .classDefinition [.str name, .list fields] =>
      some ⟨name, fields.filterMap fun v => match v with
        | .str s => some s
        | _ => none⟩
  | _ => none

/-- A class as a value. -/
def ClassDefinition.toValue (c : ClassDefinition) : Value :=
  .node .classDefinition [.str c.name, .list (c.fields.map .str)]

/-- The subroutine that a value stands for. -/
def Subroutine.ofValue? : Value → Option Subroutine
  | .node .subroutine [name, parameters, declarations, body] =>
      some ⟨.ofValue name, parameters.items.filterMap Parameter.ofValue?,
        declarations.items.filterMap Declaration.ofValue?, Stmt.ofItems body⟩
  | _ => none

/-- A subroutine as a value. -/
def Subroutine.toValue (s : Subroutine) : Value :=
  .node .subroutine [s.name.toValue, .list (s.parameters.map Parameter.toValue),
    .list (s.declarations.map Declaration.toValue), .list (Stmt.toValues s.body)]

/-- The items of a field of a node, if it has that field. -/
def Value.itemsOf (v : Value) (name : String) : List Value :=
  ((v.field? name).map Value.items).getD []

/-- The program in data, which have to have a main algorithm and subroutines. -/
def Program.read (v : Value) : Except AccessError Program := do
  let algorithm ← v.part "algorithm"
  let main ← algorithm.part "main"
  let body ← main.part "body"
  let subroutines ← algorithm.part "subroutines"
  return {
    classes := (v.itemsOf "classes").filterMap ClassDefinition.ofValue?
    subroutines := subroutines.items.filterMap Subroutine.ofValue?
    declarations := (main.itemsOf "declarations").filterMap Declaration.ofValue?
    body := Stmt.ofItems body }

/-- A program as a value. -/
def Program.toValue (p : Program) : Value :=
  .node .program
    [.list (p.classes.map ClassDefinition.toValue),
     .node .algorithm
      [.list (p.subroutines.map Subroutine.toValue),
       .node .mainAlgorithm
        [.list (p.declarations.map Declaration.toValue), .list (Stmt.toValues p.body)]]]

end Ordo
