import Ordo.Flowchart
import Ordo.Program.Fault

namespace Ordo.Flowchart

/-!
# Flowcharts of data

Data may hold something that cannot be drawn.  The drawing then breaks off, and what has been
drawn by then stays.  To tell what that is, a mark is put in the place of what cannot be drawn:
all that would be drawn before the mark has been drawn.

* `Break` — why a drawing breaks off, and whether its last node had its number already;
* `terminalFault?`, `endFault?` — why it cannot be told whether a statement is terminal;
* `marked`, `markedBlock`, `markedItems` — statements up to what cannot be drawn, and a mark;
* `Error`, `Unfinished` — why there is no chart, and what has been drawn of it;
* `ofValue` — the chart of a syntax tree;
* `drawValue`, `drawBlock`, `drawItems`, `drawAs` — drawings of single parts.
-/

/-- Why a drawing breaks off. -/
structure Break where
  cause : AccessError
  /-- Whether the node that is not drawn had its number already. -/
  numbered : Bool
  deriving DecidableEq, Repr

/-- The mark. -/
def mark : Stmt := .other .none

/-! ### Terminal statements -/

mutual

/-- Why it cannot be told whether a statement is terminal. -/
def terminalFault? : Value → Option AccessError
  | .node .ifStatement [_, body, otherwise] =>
      (endFault? body).or (if otherwise.isTrue then endFault? otherwise else none)
  | _ => none

/-- Why it cannot be told whether a block ends in a terminal statement. -/
def endFault? : Value → Option AccessError
  | .node .block [.list xs] => lastFault? xs
  | .node .block [.tuple xs] => lastFault? xs
  | .node .block [.dict es] => if es.isEmpty then none else some (.missingNumber (-1))
  | .node .block [statements] =>
      if statements.isTrue && statements.text?.isNone then
        some (.notSubscriptable statements.className)
      else none
  | v => if v.isTrue then some (.noAttribute v.className "statements") else none

/-- Why it cannot be told whether the last of several statements is terminal. -/
def lastFault? : List Value → Option AccessError
  | [] => none
  | [v] => terminalFault? v
  | _ :: v :: vs => lastFault? (v :: vs)

end

/-! ### Marks -/

/-- Statements up to what cannot be drawn, and a mark in its place. -/
structure Marked where
  drawable : List Stmt
  stop : Option Break

/-- A statement whose label cannot be made. -/
def unlabelled (e : AccessError) : Marked := ⟨[mark], some ⟨e, true⟩⟩

/-- A statement that is drawn as one node, unless its label cannot be made. -/
def labelled (fault : Option AccessError) (s : Stmt) : Marked :=
  match fault with
  | some e => unlabelled e
  | none => ⟨[s], none⟩

/-- Why the text of an expression cannot be made. -/
def textFault? (v : Value) : Option AccessError :=
  v.fullFault?.or (v.formFault? Expr.fullForm)

/-- Why an expression that has to be shown as a text cannot be, if it is shown as something
    else. -/
def wordFault? (fault : String → AccessError) (v : Value) : Option AccessError :=
  let form := (Expr.ofValue v).fullForm.toValue
  v.fullFault?.or (if form.text?.isSome then none else some (fault form.className))

/-- Why a text cannot be made of an expression and a sign after it. -/
def questionFault? : Value → Option AccessError :=
  wordFault? fun className => .badOperands "+" className "str"

/-- Why an expression alone cannot be a label. -/
def labelFault? : Value → Option AccessError :=
  wordFault? fun className => .noAttribute className "replace"

/-- Why an assignment has no label. -/
def assignmentFault? (target value : Value) : Option AccessError :=
  target.fullFault?.or (value.fullFault?.or
    ((target.formFault? Expr.fullForm).or (value.formFault? Expr.fullForm)))

/-- Why a call has no label. -/
def callFault? (name arguments : Value) : Option AccessError :=
  arguments.fullItemsFault?.or name.fault?

/-- Why a loop over a range has no label. -/
def rangeFault? (name start stop : Value) : Option AccessError :=
  start.fullFault?.or (stop.fullFault?.or (name.fault?.or
    ((start.formFault? Expr.fullForm).or (stop.formFault? Expr.fullForm))))

/-- A repeat loop whose body is given up to what cannot be drawn.  Its condition is shown after
    the body, and not at all if the body counts as false. -/
def repeated (body : Value) (items : Marked) (conditionFault : Option AccessError)
    (condition : Expr) : Marked :=
  if body.isTrue then
    match items.stop, conditionFault with
    | some stop, _ => ⟨[.repeatLoop items.drawable condition], some stop⟩
    | none, some e => ⟨[.repeatLoop (items.drawable ++ [mark]) condition], some ⟨e, true⟩⟩
    | none, none => ⟨[.repeatLoop items.drawable condition], none⟩
  else ⟨[.repeatLoop [] condition], none⟩

/-- A conditional whose second branch is given up to what cannot be drawn.  After a branch has
    been drawn, it has to be told whether it is terminal. -/
def secondBranch (condition : Expr) (body : List Stmt) (otherwise : Value) (rest : Marked) :
    Marked :=
  if otherwise.isTrue then
    match rest.stop, endFault? otherwise with
    | some stop, _ => ⟨[.ifElse condition body rest.drawable], some stop⟩
    | none, some e => ⟨[.ifElse condition body rest.drawable, mark], some ⟨e, false⟩⟩
    | none, none => ⟨[.ifElse condition body rest.drawable], none⟩
  else ⟨[.ifThen condition body], none⟩

mutual

/-- A statement up to what cannot be drawn of it. -/
def marked : Value → Marked
  | .node .assignment [target, value] =>
      labelled (assignmentFault? target value)
        (.assign (Expr.ofValue target) (Expr.ofValue value))
  | .node .callStatement [name, arguments] =>
      labelled (callFault? name arguments) (.call (.ofValue name) (Expr.ofItems arguments))
  | .node .returnStatement [value] => labelled (textFault? value) (.ret (Expr.ofValue value))
  | .node .comment [text] => ⟨[.comment text.text], none⟩
  | .node .forLoop [name, start, stop, body] =>
      let body := markedBlock body
      match rangeFault? name start stop with
      | some e => unlabelled e
      | none =>
          ⟨[.forLoop (.ofValue name) (Expr.ofValue start) (Expr.ofValue stop) body.drawable],
            body.stop⟩
  | .node .whileLoop [condition, body] =>
      let body := markedBlock body
      match labelFault? condition with
      | some e => unlabelled e
      | none => ⟨[.whileLoop (Expr.ofValue condition) body.drawable], body.stop⟩
  | .node .repeatLoop [body, condition] =>
      repeated body (markedItems body) (questionFault? condition) (Expr.ofValue condition)
  | .node .ifStatement [condition, body, otherwise] =>
      let first := markedBlock body
      let rest := markedBlock otherwise
      match questionFault? condition, first.stop, endFault? body with
      | some e, _, _ => unlabelled e
      | none, some stop, _ => ⟨[.ifThen (Expr.ofValue condition) first.drawable], some stop⟩
      | none, none, some e =>
          ⟨[.ifElse (Expr.ofValue condition) first.drawable [mark]], some ⟨e, false⟩⟩
      | none, none, none => secondBranch (Expr.ofValue condition) first.drawable otherwise rest
  | v => labelled v.fault? (.other v)

/-- The statements of a block up to what cannot be drawn.  A block that counts as false has
    none. -/
def markedBlock : Value → Marked
  | .node .block [statements] =>
      if statements.isTrue then markedItems statements else ⟨[], none⟩
  | v =>
      if v.isTrue then ⟨[mark], some ⟨.noAttribute v.className "statements", false⟩⟩
      else ⟨[], none⟩

/-- The items of a value up to what cannot be drawn. -/
def markedItems : Value → Marked
  | .list xs => markedAll xs
  | .tuple xs => markedAll xs
  | v =>
      match v.iterateFault? with
      | some e => ⟨[mark], some ⟨e, false⟩⟩
      | none => ⟨Stmt.ofItems v, none⟩

/-- Several statements up to what cannot be drawn. -/
def markedAll : List Value → Marked
  | [] => ⟨[], none⟩
  | v :: vs =>
      let first := marked v
      match first.stop with
      | some stop => ⟨first.drawable, some stop⟩
      | none =>
          let rest := markedAll vs
          ⟨first.drawable ++ rest.drawable, rest.stop⟩

end

/-- The lines before the last node that is no statement, with its number. -/
def beforeMark : List Line → Option (List Line × Nat)
  | [] => none
  | l :: ls =>
      match beforeMark ls with
      | some (before, number) => some (l :: before, number)
      | none =>
          match l with
          | .node (.step .unknown number) _ _ => some ([], number)
          | _ => none

/-- A drawing, cut off where it breaks off. -/
def cutOff {α : Type} (d : Drawn α) : Option Break → Drawn (Except AccessError α)
  | none => ⟨.ok d.result, d.lines, d.count⟩
  | some stop =>
      match beforeMark d.lines with
      | some (before, number) =>
          ⟨.error stop.cause, before, if stop.numbered then number else number - 1⟩
      | none => ⟨.error stop.cause, d.lines, d.count⟩

/-! ### Parts -/

/-- Draws statements that follow each other. -/
def drawMarked (n : Nat) (m : Marked) : Drawn (Except AccessError Ends) :=
  cutOff (drawBody n none m.drawable) m.stop

/-- Draws a statement.  The result is its node. -/
def drawFirst (n : Nat) (m : Marked) : Drawn (Except AccessError (Option NodeId)) :=
  let d := drawMarked n m
  ⟨d.result.map Ends.first, d.lines, d.count⟩

/-- Draws a statement in data. -/
def drawValue (n : Nat) (v : Value) : Drawn (Except AccessError (Option NodeId)) :=
  drawFirst n (marked v)

/-- Draws a block in data. -/
def drawBlock (n : Nat) (v : Value) : Drawn (Except AccessError Ends) :=
  drawMarked n (markedBlock v)

/-- Draws the items of a value as a whole body.  A value that counts as false has none. -/
def drawItems (n : Nat) (v : Value) : Drawn (Except AccessError (Option NodeId)) :=
  let items : Marked := if v.isTrue then markedItems v else ⟨[], none⟩
  cutOff (drawSequence n items.drawable) items.stop

/-! ### Charts -/

/-- Why there is no chart. -/
inductive Error
  /-- The value, of the named class, is neither a program nor a subroutine. -/
  | unsupported (className : String)
  /-- Something in the value cannot be drawn. -/
  | access (e : AccessError)
  deriving DecidableEq, Repr

/-- What is said when there is no chart. -/
def Error.message : Error → String
  | unsupported className => "Tipo no soportado: <class '" ++ className ++ "'>"
  | access e => e.message

/-- What has been drawn of a chart, and why it is not finished. -/
structure Unfinished where
  error : Error
  lines : List Line
  count : Nat

/-- A chart of which nothing has been drawn. -/
def notBegun {α : Type} (r : Except AccessError α) : Except Unfinished α :=
  r.mapError fun e => ⟨.access e, [], 0⟩

/-- The class of a value, with the module that it belongs to. -/
def qualifiedClass : Value → String
  | .node k _ => "app.parsing.ast_nodes." ++ k.name
  | .token _ _ => "lark.lexer.Token"
  | .tree _ _ => "lark.tree.Tree"
  | v => v.className

/-- The first line of a chart. -/
def titleLine (title : String) : Line := .node .start .round (.quoted title)

/-- The chart of a body in data under a title. -/
def ofData (title : String) (body : Except AccessError Value) : Except Unfinished Flowchart := do
  let body ← body.mapError fun e => ⟨.access e, [titleLine title], 0⟩
  let d := drawItems 0 body
  match d.result with
  | .ok _ => return .ofBody title (Stmt.ofItems body)
  | .error e => throw ⟨.access e, titleLine title :: d.lines, d.count⟩

/-- The title of a subroutine in data: its name and the names of its parameters. -/
def titleOf (name parameters : Value) : Except AccessError String := do
  match ← (← parameters.iterate).mapM (·.part "name") with
  | [] => name.textFor "replace"
  | names =>
      let names ← Value.textsFrom 0 names
      return (← name.shown) ++ "(" ++ Value.joined ", " names ++ ")"

/-- The chart of a syntax tree. -/
def ofValue (v : Value) : Except Unfinished Flowchart :=
  match v with
  | .node .program [_, algorithm] => do
      let main ← notBegun (algorithm.part "main")
      ofData "main" (main.part "body")
  | .node .subroutine [name, parameters, _, body] => do
      ofData (← notBegun (titleOf name parameters)) (.ok body)
  | v => .error ⟨.unsupported (qualifiedClass v), [], 0⟩

/-! ### Values drawn as something else -/

/-- A value as a statement that is drawn as a node of the given kind.  Each part is asked for when
    it is needed: a value that lacks what its label is made of has taken a number, and one that
    lacks only a body is drawn without it. -/
def recast (kind : NodeKind) (v : Value) : Marked :=
  match kind with
  | .assignment =>
      ofPart (v.part "variable") unlabelled fun target =>
        match target.fullFault? with
        | some e => unlabelled e
        | none => ofPart (v.part "value") unlabelled fun value =>
            marked (.node .assignment [target, value])
  | .call =>
      ofPart (v.part "arguments") unlabelled fun arguments =>
        match arguments.fullItemsFault? with
        | some e => unlabelled e
        | none => ofPart (v.part "function_name") unlabelled fun name =>
            marked (.node .callStatement [name, arguments])
  | .ret =>
      ofPart (v.part "value") unlabelled fun value => marked (.node .returnStatement [value])
  | .forLoop => ofPart (v.part "start") unlabelled fun _ => marked v
  | .conditional =>
      ofPart (v.part "condition") unlabelled fun condition =>
        match questionFault? condition with
        | some e => unlabelled e
        | none =>
            ofPart (v.part "then_block")
              (fun e => ⟨[.ifElse (Expr.ofValue condition) [] [mark]], some ⟨e, false⟩⟩)
              fun _ => marked v
  | .whileLoop =>
      ofPart (v.part "condition") unlabelled fun condition =>
        match labelFault? condition with
        | some e => unlabelled e
        | none =>
            ofPart (v.part "body")
              (fun e => ⟨[.whileLoop (Expr.ofValue condition) [mark]], some ⟨e, false⟩⟩)
              fun body => marked (.node .whileLoop [condition, body])
  | .repeatLoop =>
      ofPart (v.part "body") (fun e => ⟨[mark], some ⟨e, false⟩⟩) fun body =>
        ofPart (v.part "condition")
          (fun e => repeated body (markedItems body) (some e) (.other .none)) fun condition =>
            marked (.node .repeatLoop [body, condition])
  | _ => marked v
where
  ofPart (part : Except AccessError Value) (missing : AccessError → Marked)
      (found : Value → Marked) : Marked :=
    match part with
    | .ok v => found v
    | .error e => missing e

/-- Draws a value as a node of the given kind. -/
def drawAs (kind : NodeKind) (n : Nat) (v : Value) : Drawn (Except AccessError (Option NodeId)) :=
  drawFirst n (recast kind v)

end Ordo.Flowchart
