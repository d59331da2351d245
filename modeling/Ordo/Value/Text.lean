import Ordo.Decimal.Shortest
import Ordo.Text.Quoted
import Ordo.Value.Basic

namespace Ordo.Value

/-!
# The text of values

Each value has a text, and a written form that differs from it only for strings, which are
quoted.  The written form of a syntax node is a one-line summary.

* `text`, `written` — the two forms;
* `nodeText` — the summary of a syntax node.
-/

/-- Texts with a separator between them. -/
def joined (separator : String) : List String → String := String.intercalate separator

/-- The text of a list whose items are written so. -/
def listText (items : List String) : String := "[" ++ joined ", " items ++ "]"

/-- The text of a tuple whose items are written so. -/
def tupleText : List String → String
  | [item] => "(" ++ item ++ ",)"
  | items => "(" ++ joined ", " items ++ ")"

/-- How many characters or items of a comment its summary shows. -/
def commentLength : Nat := 20

mutual

/-- The text of a value. -/
def text : Value → String
  | str s => s
  | token _ s => s
  | none => "None"
  | bool b => if b then "True" else "False"
  | int i => toString i
  | float f => Decimal.write f
  | tree r cs => "Tree(" ++ written r ++ ", " ++ listText (writtenAll cs) ++ ")"
  | list xs => listText (writtenAll xs)
  | tuple xs => tupleText (writtenAll xs)
  | dict es => "\x7b" ++ joined ", " (writtenEntries es) ++ "\x7d"
  | node k fs => nodeText k fs

/-- The written form of a value. -/
def written : Value → String
  | str s => Text.quote s
  | token k s => "Token(" ++ Text.quote k ++ ", " ++ Text.quote s ++ ")"
  | none => "None"
  | bool b => if b then "True" else "False"
  | int i => toString i
  | float f => Decimal.write f
  | tree r cs => "Tree(" ++ written r ++ ", " ++ listText (writtenAll cs) ++ ")"
  | list xs => listText (writtenAll xs)
  | tuple xs => tupleText (writtenAll xs)
  | dict es => "\x7b" ++ joined ", " (writtenEntries es) ++ "\x7d"
  | node k fs => nodeText k fs

/-- The written forms of several values. -/
def writtenAll : List Value → List String
  | [] => []
  | v :: vs => written v :: writtenAll vs

/-- The written forms of dictionary entries. -/
def writtenEntries : List (String × Value) → List String
  | [] => []
  | (k, v) :: es => (Text.quote k ++ ": " ++ written v) :: writtenEntries es

/-- The summary of a node.  Nested nodes are shown in it; lists only by their size. -/
def nodeText : Kind → List Value → String
  | .bare, _ => "ASTNode(...)"
  | .bareStatement, _ => "Statement()"
  | .bareExpression, _ => "Expression()"
  | .program, [classes, algorithm] =>
      "Program(classes=" ++ toString classes.size ++ ", algorithm=" ++ text algorithm ++ ")"
  | .classDefinition, [name, attributes] =>
      "Class(" ++ text name ++ ", attributes=" ++ text attributes ++ ")"
  | .algorithm, [subroutines, _] => "Algorithm(subroutines=" ++ toString subroutines.size ++ ")"
  | .subroutine, [name, parameters, _, _] =>
      "Subroutine(" ++ text name ++ ", params=" ++ toString parameters.size ++ ")"
  | .mainAlgorithm, [_, body] => "MainAlgorithm(statements=" ++ toString body.size ++ ")"
  | .parameter, [name, type, _, _] => "Parameter(" ++ text name ++ ", type=" ++ text type ++ ")"
  | .declaration, [name, type, _, _] =>
      "Declaration(" ++ text name ++ ", type=" ++ text type ++ ")"
  | .assignment, [target, value] => "Assignment(" ++ text target ++ " := " ++ text value ++ ")"
  | .forLoop, [name, start, stop, _] =>
      "ForLoop(" ++ text name ++ ": " ++ text start ++ " to " ++ text stop ++ ")"
  | .whileLoop, [condition, _] => "WhileLoop(condition=" ++ text condition ++ ")"
  | .repeatLoop, [body, _] => "RepeatLoop(statements=" ++ toString body.size ++ ")"
  | .ifStatement, [_, _, otherwise] =>
      "IfStatement(" ++ (if otherwise.isTrue then "with else" else "no else") ++ ")"
  | .callStatement, [name, arguments] =>
      "CallStatement(" ++ text name ++ ", args=" ++ toString arguments.size ++ ")"
  | .returnStatement, [value] => "ReturnStatement(" ++ text value ++ ")"
  | .comment, [list xs] =>
      "Comment('" ++ listText ((writtenAll xs).take commentLength) ++ "...')"
  | .comment, [tuple xs] =>
      "Comment('" ++ tupleText ((writtenAll xs).take commentLength) ++ "...')"
  | .comment, [comment] =>
      "Comment('" ++ String.ofList ((text comment).toList.take commentLength) ++ "...')"
  | .block, [statements] => "Block(statements=" ++ toString statements.size ++ ")"
  | .number, [value] => "Number(" ++ text value ++ ")"
  | .boolean, [value] => "Boolean(" ++ text value ++ ")"
  | .null, _ => "Null()"
  | .var, [name, indices, field, _, isRange, start, stop] =>
      if indices.isTrue then "Variable(" ++ text name ++ "[...])"
      else if field.isTrue then "Variable(" ++ text name ++ "." ++ text field ++ ")"
      else if isRange.isTrue then
        "Variable(" ++ text name ++ "[" ++ text start ++ ".." ++ text stop ++ "])"
      else "Variable(" ++ text name ++ ")"
  | .binaryOp, [operator, left, right] =>
      "BinaryOp(" ++ text left ++ " " ++ text operator ++ " " ++ text right ++ ")"
  | .unaryOp, [operator, operand] => "UnaryOp(" ++ text operator ++ " " ++ text operand ++ ")"
  | .functionCall, [name, arguments] =>
      "FunctionCall(" ++ text name ++ ", args=" ++ toString arguments.size ++ ")"
  | .length, [operand] => "Length(" ++ text operand ++ ")"
  | .ceiling, [operand] => "Ceiling(" ++ text operand ++ ")"
  | .floor, [operand] => "Floor(" ++ text operand ++ ")"
  | k, _ => k.name

end

end Ordo.Value
