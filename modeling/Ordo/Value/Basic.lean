namespace Ordo

/-!
# Values

Syntax trees and analyses are exchanged as plain data: with a language model, with the cache
and over the network.  A value is such data, together with what a parse leaves in it: tokens,
parse trees and the nodes of a syntax tree.

* `Kind` — the kinds of node, with their fields in order;
* `Value` — plain data, tokens, trees and nodes;
* `Value.isTrue`, `Value.size` — whether a value counts as true, and how many items it has;
* `Value.get?` — the entry of a dictionary;
* `Value.serialize` — a value with its nodes written as dictionaries.
-/

/-- The kinds of node of a syntax tree.  The first three carry nothing. -/
inductive Kind
  | bare | bareStatement | bareExpression
  | program | classDefinition | algorithm | subroutine | mainAlgorithm | parameter | declaration
  | assignment | forLoop | whileLoop | repeatLoop | ifStatement | callStatement
  | returnStatement | comment | block
  | number | boolean | null | var | binaryOp | unaryOp | functionCall | length | ceiling | floor
  deriving DecidableEq, Repr

namespace Kind

/-- Every kind. -/
def all : List Kind :=
  [bare, bareStatement, bareExpression,
   program, classDefinition, algorithm, subroutine, mainAlgorithm, parameter, declaration,
   assignment, forLoop, whileLoop, repeatLoop, ifStatement, callStatement,
   returnStatement, comment, block,
   number, boolean, null, var, binaryOp, unaryOp, functionCall, length, ceiling, floor]

/-- The name of a kind, which a serialised node carries as its type. -/
def name : Kind → String
  | bare => "ASTNode" | bareStatement => "Statement" | bareExpression => "Expression"
  | program => "Program" | classDefinition => "ClassDefinition" | algorithm => "Algorithm"
  | subroutine => "Subroutine" | mainAlgorithm => "MainAlgorithm" | parameter => "Parameter"
  | declaration => "Declaration" | assignment => "Assignment" | forLoop => "ForLoop"
  | whileLoop => "WhileLoop" | repeatLoop => "RepeatLoop" | ifStatement => "IfStatement"
  | callStatement => "CallStatement" | returnStatement => "ReturnStatement"
  | comment => "Comment" | block => "Block" | number => "Number" | boolean => "Boolean"
  | null => "Null" | var => "Variable" | binaryOp => "BinaryOp" | unaryOp => "UnaryOp"
  | functionCall => "FunctionCall" | length => "Length" | ceiling => "Ceiling"
  | floor => "Floor"

/-- The fields of a kind of node, in order. -/
def fields : Kind → List String
  | bare | bareStatement | bareExpression | null => []
  | program => ["classes", "algorithm"]
  | classDefinition => ["name", "attributes"]
  | algorithm => ["subroutines", "main"]
  | subroutine => ["name", "parameters", "declarations", "body"]
  | mainAlgorithm => ["declarations", "body"]
  | parameter => ["name", "param_type", "class_name", "dimensions"]
  | declaration => ["name", "decl_type", "size", "class_name"]
  | assignment => ["variable", "value"]
  | forLoop => ["variable", "start", "end", "body"]
  | whileLoop => ["condition", "body"]
  | repeatLoop => ["body", "condition"]
  | ifStatement => ["condition", "then_block", "else_block"]
  | callStatement => ["function_name", "arguments"]
  | returnStatement => ["value"]
  | comment => ["text"]
  | block => ["statements"]
  | number | boolean => ["value"]
  | var =>
      ["name", "indices", "field", "field_indices", "is_range", "range_start", "range_end"]
  | binaryOp => ["operator", "left", "right"]
  | unaryOp => ["operator", "operand"]
  | functionCall => ["function_name", "arguments"]
  | length => ["variable"]
  | ceiling | floor => ["expression"]

/-- The kind with a given name. -/
def ofName? (s : String) : Option Kind := all.find? (·.name == s)

/-- Statements. -/
def isStatement : Kind → Bool
  | bareStatement | assignment | forLoop | whileLoop | repeatLoop | ifStatement | callStatement
  | returnStatement | comment => true
  | _ => false

/-- Expressions. -/
def isExpression : Kind → Bool
  | bareExpression | number | boolean | null | var | binaryOp | unaryOp | functionCall | length
  | ceiling | floor => true
  | _ => false

end Kind

/-- Plain data, tokens, parse trees and syntax nodes.  The rule of a tree is a token if a parse
    left the tree, else a text.  The fields of a node are in the order of `Kind.fields`. -/
inductive Value
  | none
  | bool (b : Bool)
  | int (i : Int)
  | float (f : Float)
  | str (s : String)
  | token (kind text : String)
  | tree (rule : Value) (children : List Value)
  | list (items : List Value)
  | tuple (items : List Value)
  | dict (entries : List (String × Value))
  | node (kind : Kind) (fields : List Value)
  deriving Inhabited

namespace Value

/-- Whether a value counts as true: it is not absent, false, zero or empty. -/
def isTrue : Value → Bool
  | none => false
  | bool b => b
  | int i => i != 0
  | float f => f != 0.0
  | str s => !s.isEmpty
  | token _ s => !s.isEmpty
  | list xs | tuple xs => !xs.isEmpty
  | dict es => !es.isEmpty
  | tree _ _ | node _ _ => true

/-- The number of items of a text, list or dictionary; zero for anything else. -/
def size : Value → Nat
  | str s | token _ s => s.length
  | list xs | tuple xs => xs.length
  | dict es => es.length
  | _ => 0

/-- Whether a value has items that can be gone through. -/
def hasItems : Value → Bool
  | str _ | token _ _ | list _ | tuple _ | dict _ => true
  | _ => false

/-- The entry of a dictionary. -/
def get? (v : Value) (key : String) : Option Value :=
  match v with
  | dict es => es.lookup key
  | _ => Option.none

/-- The field of a node. -/
def field? (v : Value) (name : String) : Option Value :=
  match v with
  | node k fs => (k.fields.zip fs).lookup name
  | _ => Option.none

/-- The class of a value, as error messages name it. -/
def className : Value → String
  | none => "NoneType" | bool _ => "bool" | int _ => "int" | float _ => "float"
  | str _ => "str" | token _ _ => "Token" | tree _ _ => "Tree" | list _ => "list"
  | tuple _ => "tuple" | dict _ => "dict" | node k _ => k.name

/-- Statements. -/
def isStatement : Value → Bool
  | node k _ => k.isStatement
  | _ => false

/-- Expressions. -/
def isExpression : Value → Bool
  | node k _ => k.isExpression
  | _ => false

/-- Whether a value is a node of the given kind. -/
def isKind (kind : Kind) : Value → Bool
  | node k _ => k == kind
  | _ => false

mutual

/-- A value with every node written as a dictionary of its type and fields.  Tuples become
    lists and tokens their text; parse trees are left alone. -/
def serialize : Value → Value
  | node .bare fs => node .bare fs
  | node k fs => dict (("type", str k.name) :: serializeFields k.fields fs)
  | list xs => list (serializeAll xs)
  | tuple xs => list (serializeAll xs)
  | token _ s => str s
  | dict es => dict (serializeEntries es)
  | v => v

/-- The serialised fields of a node, under their names. -/
def serializeFields : List String → List Value → List (String × Value)
  | name :: names, v :: vs => (name, serialize v) :: serializeFields names vs
  | _, _ => []

/-- Several values, serialised. -/
def serializeAll : List Value → List Value
  | [] => []
  | v :: vs => serialize v :: serializeAll vs

/-- The entries of a dictionary, serialised. -/
def serializeEntries : List (String × Value) → List (String × Value)
  | [] => []
  | (k, v) :: es => (k, serialize v) :: serializeEntries es

end

end Value

end Ordo
