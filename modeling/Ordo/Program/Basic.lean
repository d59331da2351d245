import Ordo.Program.Name

namespace Ordo

/-!
# Programs

The syntax of pseudocode programs, as the analyses see it.

* `Expr` — expressions;
* `Stmt` — statements, with the statements of a block as a list;
* `Parameter`, `Declaration`, `Subroutine`, `ClassDefinition`, `Program` — the parts of a
  program.

A place where an expression or statement is due may hold something else, such as a sign that
was left over in a chain of powers or a declaration inside a repeat loop.  It is kept as the
value it is, and analyses pass over it.
-/

/-- A number as written: without or with a point. -/
inductive Numeral
  | whole (i : Int)
  | real (f : Float)

/-- Expressions.  Operators are kept as they are written. -/
inductive Expr
  | number (n : Numeral)
  | boolean (b : Bool)
  | null
  /-- A variable with indices, a field, and indices of the field, any of which may be absent. -/
  | var (name : Name) (indices : List Expr) (field : Option String) (fieldIndices : List Expr)
  /-- A variable, restricted to a range. -/
  | slice (name : Name) (indices : List Expr) (field : Option String)
      (fieldIndices : List Expr) (start stop : Expr)
  | binary (operator : String) (left right : Expr)
  | unary (operator : String) (operand : Expr)
  | call (name : Name) (arguments : List Expr)
  | length (operand : Expr)
  | ceiling (operand : Expr)
  | floor (operand : Expr)
  /-- Anything that is no expression. -/
  | other (v : Value)

/-- Statements. -/
inductive Stmt
  | assign (target value : Expr)
  | forLoop (name : Name) (start stop : Expr) (body : List Stmt)
  | whileLoop (condition : Expr) (body : List Stmt)
  | repeatLoop (body : List Stmt) (condition : Expr)
  | ifThen (condition : Expr) (body : List Stmt)
  | ifElse (condition : Expr) (body otherwise : List Stmt)
  | call (name : Name) (arguments : List Expr)
  | ret (value : Expr)
  | comment (text : String)
  /-- Anything that is no statement. -/
  | other (v : Value)

/-- The kinds of parameter. -/
inductive ParameterKind
  | simple
  | array (dimensions : Nat)
  | object (className : String)
  deriving DecidableEq, Repr

/-- A parameter of a subroutine. -/
structure Parameter where
  name : Name
  kind : ParameterKind

/-- A local declaration. -/
inductive Declaration
  | array (name : String) (size : Expr)
  | object (className name : String)

/-- A class of records. -/
structure ClassDefinition where
  name : String
  fields : List String
  deriving DecidableEq, Repr

/-- A subroutine. -/
structure Subroutine where
  name : Name
  parameters : List Parameter
  declarations : List Declaration
  body : List Stmt

/-- A program: classes, subroutines and the declarations and body of its main algorithm. -/
structure Program where
  classes : List ClassDefinition
  subroutines : List Subroutine
  declarations : List Declaration
  body : List Stmt

end Ordo
