import Ordo.Analysis.Outcome
import Ordo.Program.Position
import Ordo.Program.Text
import Ordo.Text.Search
import Ordo.Value.Access

namespace Ordo

/-!
# Recursion

How a subroutine calls itself: where, with which arguments, how an argument shrinks, and in
which case it stops.

* `Expr.hasCall`, `Expr.callArguments` — calls in an expression, looked for below operators;
* `Subroutine.selfCalls` — the calls of a subroutine to itself;
* `Subroutine.baseCase` — the first branch without such a call;
* `Subroutine.reduction` — how a parameter shrinks in the calls.
-/

/-- Whether an expression is a call to the named function, or an operation with one as an
    operand at any depth. -/
def Expr.hasCall (name : Name) : Expr → Bool
  | .call f _ => f.same name
  | .binary _ left right => left.hasCall name || right.hasCall name
  | .unary _ operand => operand.hasCall name
  | _ => false

/-- The arguments of the first call to the named function that has any. -/
def Expr.callArguments (name : Name) : Expr → List Expr
  | .call f arguments => if f.same name then arguments else []
  | .binary _ left right =>
      match left.callArguments name with
      | [] => right.callArguments name
      | arguments => arguments
  | .unary _ operand => operand.callArguments name
  | _ => []

/-- A call of a subroutine to itself. -/
structure SelfCall where
  path : Path
  arguments : List Expr

/-- A call seen from outside a part of a statement. -/
def SelfCall.below (step : Step) (c : SelfCall) : SelfCall := { c with path := step :: c.path }

/-- A call in a part of a statement, if the expression there has one. -/
def Expr.selfCall (name : Name) (step : Step) (e : Expr) : List SelfCall :=
  if e.hasCall name then [⟨[step], e.callArguments name⟩] else []

mutual

/-- The calls to the named subroutine in the statement with the given index. -/
def Stmt.selfCalls (name : Name) (index : Nat) : Stmt → List SelfCall
  | .call f arguments => if f.same name then [⟨[⟨index, .call⟩], arguments⟩] else []
  | .ret value => value.selfCall name ⟨index, .ret⟩
  | .assign _ value => value.selfCall name ⟨index, .assignment⟩
  | .forLoop _ _ _ body => (Stmt.selfCallsFrom name 0 body).map (.below ⟨index, .forBody⟩)
  | .whileLoop _ body => (Stmt.selfCallsFrom name 0 body).map (.below ⟨index, .whileBody⟩)
  | .ifThen _ body => (Stmt.selfCallsFrom name 0 body).map (.below ⟨index, .thenBranch⟩)
  | .ifElse _ body otherwise =>
      (Stmt.selfCallsFrom name 0 body).map (.below ⟨index, .thenBranch⟩)
        ++ (Stmt.selfCallsFrom name 0 otherwise).map (.below ⟨index, .elseBranch⟩)
  | _ => []

/-- The calls in several statements, of which the first has the given index. -/
def Stmt.selfCallsFrom (name : Name) (index : Nat) : List Stmt → List SelfCall
  | [] => []
  | s :: ss => Stmt.selfCalls name index s ++ Stmt.selfCallsFrom name (index + 1) ss

end

/-- The calls of a subroutine to itself, in the order of its text. -/
def Subroutine.selfCalls (s : Subroutine) : Except AnalysisError (List SelfCall) :=
  whenWalkable s.body (Stmt.selfCallsFrom s.name 0 s.body)

/-- Labels in the positions of calls. -/
def callLabel : PartLabel
  | .call => "call" | .ret => "return" | .assignment => "assignment" | .condition => "condition"
  | .forBody => "for" | .whileBody => "while" | .thenBranch => "then" | .elseBranch => "else"

/-- Calls as data: their number, positions and arguments as they are shown. -/
def SelfCall.report (calls : List SelfCall) : Value :=
  .dict [("count", .int calls.length),
    ("positions", .list (calls.map fun c => .str (c.path.render callLabel))),
    ("arguments", .list (calls.map fun c =>
      .list (c.arguments.map fun e => e.shortForm.toValue)))]

/-- Whether one of the statements itself calls the named subroutine, by a call, a returned
    value or an assigned value. -/
def Stmt.anyDirectCall (name : Name) (body : List Stmt) : Bool :=
  body.any fun
    | .call f _ => f.same name
    | .ret value => value.hasCall name
    | .assign _ value => value.hasCall name
    | _ => false

/-- The first returned value among the statements, as it is shown. -/
def Stmt.returned? (body : List Stmt) : Option Name :=
  body.findSome? fun
    | .ret value => some value.shortForm
    | _ => none

/-- The case in which a recursion stops. -/
structure BaseCase where
  condition : Expr
  returned : Option Name
  /-- The index of its statement in the body. -/
  index : Nat

/-- The base case at a statement: a conditional whose first branch makes no direct call. -/
def Stmt.baseCase? (name : Name) (index : Nat) : Stmt → Option BaseCase
  | .ifThen condition body | .ifElse condition body _ =>
      if Stmt.anyDirectCall name body then none
      else some ⟨condition, Stmt.returned? body, index⟩
  | _ => none

/-- The first base case among statements, of which the first has the given index. -/
def Stmt.firstBaseCase? (name : Name) (index : Nat) : List Stmt → Option BaseCase
  | [] => none
  | s :: ss =>
      match s.baseCase? name index with
      | some b => some b
      | none => Stmt.firstBaseCase? name (index + 1) ss

/-- The base case of a subroutine. -/
def Subroutine.baseCase (s : Subroutine) : Option BaseCase :=
  Stmt.firstBaseCase? s.name 0 s.body

/-- A base case as data. -/
def BaseCase.report : Option BaseCase → Value
  | some b =>
      .dict [("exists", .bool true), ("condition", b.condition.shortForm.toValue),
        ("return_value", (b.returned.map Name.toValue).getD .none),
        ("position", .str (Path.render callLabel [⟨b.index, .thenBranch⟩]))]
  | none =>
      .dict [("exists", .bool false), ("condition", .none), ("return_value", .none),
        ("position", .none)]

/-- How an argument shrinks from call to call. -/
inductive Pattern
  /-- There is no call. -/
  | none
  /-- No argument mentions the parameter. -/
  | constant
  | decrement
  | halving
  | division
  | custom
  deriving DecidableEq, Repr

namespace Pattern

/-- The name of a pattern. -/
def name : Pattern → String
  | none => "none" | constant => "constant" | decrement => "n-1" | halving => "n/2"
  | division => "n/b" | custom => "custom"

/-- By how much the argument shrinks. -/
def factor : Pattern → String
  | none | constant => "0" | decrement => "1" | halving => "2" | division => "b"
  | custom => "unknown"

end Pattern

/-- Whether a name is mentioned in what an argument is shown as: in its text, or among its
    items. -/
def Name.isMentionedIn (name argument : Name) : Bool :=
  match name, argument with
  | .text s, .text t => Text.occurs s.toList t.toList
  | name, argument =>
      match argument.toValue.includes name.toValue with
      | .ok b => b
      | .error _ => false

/-- The pattern that an argument shows. -/
def Pattern.ofArgument (argument : Name) : Pattern :=
  let mentions (s : String) : Bool := (Name.text s).isMentionedIn argument
  if mentions "-1" || mentions "- 1" then .decrement
  else if mentions "/2" || mentions "div 2" then .halving
  else if mentions "/" || mentions "div" then .division
  else .custom

/-- How a parameter shrinks, with the arguments that mention it. -/
structure Reduction where
  pattern : Pattern
  examples : List Name

/-- How the named parameter shrinks in calls: as the first argument that mentions it shows. -/
def Reduction.ofCalls (parameter : Name) (calls : List SelfCall) : Reduction :=
  if calls.isEmpty then ⟨.none, []⟩
  else
    let arguments := calls.flatMap fun c => c.arguments.map Expr.shortForm
    match arguments.filter parameter.isMentionedIn with
    | [] => ⟨.constant, []⟩
    | first :: rest => ⟨.ofArgument first, first :: rest⟩

/-- How the named parameter shrinks in the calls of a subroutine to itself. -/
def Subroutine.reduction (s : Subroutine) (parameter : Name) :
    Except AnalysisError Reduction := do
  return .ofCalls parameter (← s.selfCalls)

/-- A reduction as data. -/
def Reduction.report (r : Reduction) : Value :=
  .dict [("pattern", .str r.pattern.name), ("reduction_factor", .str r.pattern.factor),
    ("examples", .list (r.examples.map Name.toValue))]

end Ordo
