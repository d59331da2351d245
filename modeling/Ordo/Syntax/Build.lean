import Ordo.Decimal.Numeral
import Ordo.Syntax.Derivation
import Ordo.Text.Lower
import Ordo.Value.Access

namespace Ordo

/-!
# Building syntax trees

Every rule of the grammar says how to make a syntax node from the values of its parts.  The
parts of a rule are what the parse tree kept of it, so reserved words, comparison signs and
the words `mod`, `div` and `not` are not among them, while the signs `+ - * / ^` are.

* `BuildError` — why a node cannot be made, with its wording;
* `Construction`, `Construction.apply` — the ways to make a value from parts;
* `Terminal.value` — the value of a token;
* `ParseTree.build` — the syntax tree of a parse tree.
-/

/-- Why a value cannot be made. -/
inductive BuildError
  /-- A part is missing. -/
  | missingPart
  /-- A part is not what it has to be. -/
  | access (e : AccessError)
  /-- A range has fewer than two ends. -/
  | fewEnds (count : Nat)
  /-- A range has more than two ends. -/
  | manyEnds
  | numeral (e : Decimal.NumeralError)
  /-- A numeral is something of the named class. -/
  | noNumeral (className : String) (real : Bool)
  deriving DecidableEq, Repr

/-- The wording of an error. -/
def BuildError.message : BuildError → String
  | missingPart => "list index out of range"
  | access e => e.message
  | fewEnds n => "not enough values to unpack (expected 2, got " ++ toString n ++ ")"
  | manyEnds => "too many values to unpack (expected 2)"
  | numeral e => e.message
  | noNumeral className true =>
      "float() argument must be a string or a real number, not '" ++ className ++ "'"
  | noNumeral className false =>
      "int() argument must be a string, a bytes-like object or a real number, not '"
        ++ className ++ "'"

/-- The ways to make a value: by a rule, or as a local declaration that stands apart from
    other statements. -/
inductive Construction
  | rule (r : Rule)
  | localDeclaration
  | localDeclarations
  deriving DecidableEq, Repr

namespace Build

open Value (isExpression isStatement isKind)

/-- A part by number. -/
def part (parts : List Value) (n : Nat) : Except BuildError Value :=
  match parts[n]? with
  | some v => .ok v
  | none => .error .missingPart

/-- The last part. -/
def lastPart (parts : List Value) : Except BuildError Value :=
  match parts.getLast? with
  | some v => .ok v
  | none => .error .missingPart

/-- What a token or a node with a value stands for. -/
def valueOf (v : Value) : Except BuildError Value := (v.part "value").mapError .access

/-- A plain variable, and the empty fields of one. -/
def plainVar (name : Value) : Value :=
  .node .var [name, .none, .none, .none, .bool false, .none, .none]

/-- Joins parts from left to right with the same operator. -/
def leftChain (operator : String) (first : Value) (rest : List Value) : Value :=
  rest.foldl (fun left right => .node .binaryOp [.str operator, left, right]) first

/-- Joins operands from left to right, each with the operator before it.  An operator without
    an operand after it is dropped. -/
def operatorChain (operator : Value → Value) : Value → List Value → Value
  | left, op :: right :: rest =>
      operatorChain operator (.node .binaryOp [operator op, left, right]) rest
  | left, _ => left

/-- Joins parts from right to left with the power operator. -/
def rightChain : List Value → Except BuildError Value
  | [] => .error .missingPart
  | [v] => .ok v
  | v :: rest => (rightChain rest).map fun right => .node .binaryOp [.str "^", v, right]

/-- An operator sign by its text. -/
def signText (v : Value) : Value := .str v.text

/-- The sign of a comparison: mathematical signs are spelled out, and a sign that the parse
    tree did not keep is taken for equality. -/
def comparisonSign (parts : List Value) : Value :=
  match parts with
  | [] => .str "="
  | v :: _ =>
      let sign := v.text
      .str (if sign = "≤" then "<=" else if sign = "≥" then ">=" else if sign = "≠" then "!="
        else sign)

/-- All items of a list are of one kind. -/
def allOf (kind : Kind) (xs : List Value) : Bool := xs.all (isKind kind)

/-- The nodes of one kind among parts: alone or in lists. -/
def nodesOf (kind : Kind) (parts : List Value) : List Value :=
  parts.flatMap fun v =>
    match v with
    | .list xs => if allOf kind xs then xs else []
    | v => if v.isKind kind then [v] else []

/-- The declarations among the parts of a body. -/
def declarationsOf (parts : List Value) : List Value := nodesOf .declaration parts

/-- The parameters among the parts of a subroutine. -/
def parametersOf (parts : List Value) : List Value := nodesOf .parameter parts

/-- A comment's text: without its mark and blanks around it. -/
def commentText (cs : List Char) : List Char :=
  match Text.trim cs with
  | '►' :: rest => Text.trim rest
  | cs => cs

/-- A comment. -/
def comment (v : Value) : Except BuildError Value := do
  let s ← (v.textFor "strip").mapError BuildError.access
  return .node .comment [.str (String.ofList (commentText s.toList))]

/-- An array or object declaration. -/
def localDeclaration (parts : List Value) : Except BuildError Value :=
  match parts with
  | [name, size] =>
      if size.isExpression then do
        return .node .declaration [← valueOf name, .str "array", size, .none]
      else objectDeclaration parts
  | _ => objectDeclaration parts
where
  objectDeclaration (parts : List Value) : Except BuildError Value := do
    let className ← valueOf (← part parts 0)
    let name ← valueOf (← part parts 1)
    return .node .declaration [name, .str "object", .none, className]

/-- A variable: plain, with a field, a range of an array, or indexed. -/
def variableNode (parts : List Value) : Except BuildError Value :=
  match parts with
  | [] => .error .missingPart
  | [name] => (valueOf name).map plainVar
  | head :: second :: rest => do
      let name ← valueOf head
      match second with
      | .token "CNAME" field =>
          let indices := if rest.isEmpty then Value.none else .list rest
          return .node .var [name, .none, .str field, indices, .bool false, .none, .none]
      | .tuple [start, stop] =>
          return .node .var [name, .none, .none, .none, .bool true, start, stop]
      | .tuple ends =>
          if ends.length < 2 then throw (.fewEnds ends.length) else throw .manyEnds
      | _ =>
          return .node .var
            [name, .list (second :: rest), .none, .none, .bool false, .none, .none]

/-- The arguments of a call: the second part if there is one. -/
def argumentsOf (parts : List Value) : Value := (parts[1]?).getD (.list [])

/-- An assignment.  The value is the first expression after the target, or else the last
    part. -/
def assignment (parts : List Value) : Except BuildError Value := do
  let target ← part parts 0
  let value ← match (parts.drop 1).find? isExpression with
    | some v => pure v
    | none => lastPart parts
  return .node .assignment [target, value]

/-- A loop over a range.  Missing ends are zero, and a missing body is empty. -/
def forLoop (parts : List Value) : Except BuildError Value := do
  let name ← valueOf (← part parts 0)
  let rest := parts.drop 1
  let ends := rest.filter isExpression
  let zero := Value.node .number [.int 0]
  let body := (rest.find? (isKind .block)).getD (.node .block [.list []])
  return .node .forLoop [name, (ends[0]?).getD zero, (ends[1]?).getD zero, body]

/-- The first part, or a chain of all of them if there are several. -/
def unlessSingle (parts : List Value) (chain : Value → List Value → Value) :
    Except BuildError Value :=
  match parts with
  | [] => .error .missingPart
  | first :: rest => .ok (if rest.isEmpty then first else chain first rest)

/-- Makes the value of a rule. -/
def ofRule (r : Rule) (parts : List Value) : Except BuildError Value :=
  match r with
  | .start | .parameter | .statement | .condition | .expression | .atom => part parts 0
  | .program =>
      .ok (.node .program
        [.list (parts.filter (isKind .classDefinition)),
         ((parts.filter (isKind .algorithm)).getLast?).getD .none])
  | .classDefinition => do
      let name ← valueOf (← part parts 0)
      return .node .classDefinition [name, ← part parts 1]
  | .attributeList => do return .list (← parts.mapM valueOf)
  | .algorithm =>
      .ok (.node .algorithm
        [.list (parts.filter (isKind .subroutine)),
         ((parts.filter (isKind .mainAlgorithm)).getLast?).getD .none])
  | .mainAlgorithm =>
      .ok (.node .mainAlgorithm
        [.list (declarationsOf parts), .list (parts.filter isStatement)])
  | .subroutineDefinition => do
      let name ← valueOf (← part parts 0)
      let rest := parts.drop 1
      return .node .subroutine
        [name, .list (parametersOf rest), .list (declarationsOf rest),
         .list (rest.filter isStatement)]
  | .parameterList | .argumentList => .ok (.list parts)
  | .simpleParameter => do
      return .node .parameter [← valueOf (← part parts 0), .str "simple", .none, .none]
  | .arrayParameter => do
      let name ← valueOf (← part parts 0)
      let sizes := (parts.drop 1).filter fun v =>
        v.isExpression || (match v with | .none => true | _ => false)
      return .node .parameter [name, .str "array", .none, .int sizes.length]
  | .objectParameter => do
      let className ← valueOf (← part parts 0)
      let name ← valueOf (← part parts 1)
      return .node .parameter [name, .str "object", className, .none]
  | .assignment => assignment parts
  | .forLoop => forLoop parts
  | .whileLoop => do return .node .whileLoop [← part parts 0, ← part parts 1]
  | .repeatLoop => do
      return .node .repeatLoop [.list parts.dropLast, ← lastPart parts]
  | .ifStatement => do
      return .node .ifStatement [← part parts 0, ← part parts 1, (parts[2]?).getD .none]
  | .callStatement => do
      return .node .callStatement [← valueOf (← part parts 0), argumentsOf parts]
  | .returnStatement => do return .node .returnStatement [← part parts 0]
  | .comment => do comment (← valueOf (← part parts 0))
  | .block => .ok (.node .block [.list (parts.filter isStatement)])
  | .designator => variableNode parts
  | .range => do return .tuple [← part parts 0, ← part parts 1]
  | .logicalOr => unlessSingle parts (leftChain "or")
  | .logicalAnd => unlessSingle parts (leftChain "and")
  | .logicalNot =>
      match parts with
      | [v] => .ok v
      | _ => do return .node .unaryOp [.str "not", ← part parts 0]
  | .comparison => unlessSingle parts (operatorChain id)
  | .compOp => .ok (comparisonSign parts)
  | .arithmetic | .term => unlessSingle parts (operatorChain signText)
  | .factor =>
      match parts with
      | [v] => .ok v
      | _ => do
          let sign ← part parts 0
          let operator := match sign with
            | .token _ s => Value.str s
            | v => v
          return .node .unaryOp [operator, ← part parts 1]
  | .power => rightChain parts
  | .functionCall => do
      return .node .functionCall [← valueOf (← part parts 0), argumentsOf parts]
  | .length => do return .node .length [← part parts 0]
  | .ceiling => do return .node .ceiling [← part parts 0]
  | .floor => do return .node .floor [← part parts 0]
  -- declarations among statements stay as they were parsed
  | .declaration | .arrayDeclaration | .objectDeclaration =>
      .ok (.tree (.token "RULE" r.name) parts)

end Build

/-- The way to make a value that goes by a name.  Declarations among statements stay as they
    were parsed, so there is none for them. -/
def Construction.ofName? (name : String) : Option Construction :=
  if name = "local_declaration" then some localDeclaration
  else if name = "local_declarations" then some localDeclarations
  else (Rule.all.find? fun r =>
    r.name == name && r ∉ [Rule.declaration, .arrayDeclaration, .objectDeclaration]).map rule

/-- The terminals whose tokens are given a value. -/
def Terminal.valued : List Terminal := [.number, .boolean, .null, .cname, .assign]

/-- Makes a value from parts. -/
def Construction.apply (c : Construction) (parts : List Value) : Except BuildError Value :=
  match c with
  | rule r => Build.ofRule r parts
  | localDeclaration => Build.localDeclaration parts
  | localDeclarations => .ok (.list parts)

/-- The number that a numeral stands for: real if it has a point. -/
def numberOf (text : String) : Except BuildError Value :=
  if text.toList.contains '.' then
    match Decimal.readReal text with
    | .ok f => .ok (.float f)
    | .error e => .error (.numeral e)
  else
    match Decimal.readWhole text with
    | .ok i => .ok (.int i)
    | .error e => .error (.numeral e)

/-- The number that a numeral in data stands for. -/
def numberIn (v : Value) : Except BuildError Value :=
  match v.text? with
  | some s => numberOf s
  | none => do
      let real ← (v.holds ".").mapError BuildError.access
      .error (.noNumeral v.className real)

/-- The value of a token: literals become nodes, and other tokens stay as they are. -/
def Terminal.value (t : Terminal) (token : Value) : Except BuildError Value :=
  match t with
  | .number => do
      let n ← numberIn (← Build.valueOf token)
      return .node .number [n]
  | .boolean => do
      let s ← ((← Build.valueOf token).textFor "lower").mapError BuildError.access
      let word := String.ofList (Text.lower s.toList)
      return .node .boolean [.bool (word = "t" || word = "true")]
  | .null => .ok (.node .null [])
  | _ => .ok token

/-- A failed construction: what was being made, and why it failed. -/
structure BuildFailure where
  name : String
  cause : BuildError
  deriving DecidableEq, Repr

/-- The wording of a failed construction. -/
def BuildFailure.message (f : BuildFailure) : String :=
  "Error trying to process rule \"" ++ f.name ++ "\":\n\n" ++ f.cause.message

namespace ParseTree

/-- Names what was being made. -/
def attempt {α : Type} (name : String) (r : Except BuildError α) : Except BuildFailure α :=
  match r with
  | .ok v => .ok v
  | .error e => .error ⟨name, e⟩

mutual

/-- The syntax tree of a parse tree. -/
def build : ParseTree → Except BuildFailure Value
  | .leaf t => attempt t.kind.name (t.kind.value (.token t.kind.name t.text))
  | .node r children =>
      match buildAll children with
      | .ok parts => attempt r.name (Build.ofRule r parts)
      | .error e => .error e

/-- The syntax trees of several parse trees. -/
def buildAll : List ParseTree → Except BuildFailure (List Value)
  | [] => .ok []
  | t :: rest =>
      match build t with
      | .ok v =>
          match buildAll rest with
          | .ok vs => .ok (v :: vs)
          | .error e => .error e
      | .error e => .error e

end

end ParseTree

end Ordo
