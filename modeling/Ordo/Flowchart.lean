import Ordo.Program.Text

namespace Ordo

/-!
# Flowcharts

A flowchart is drawn statement by statement: each statement that is no comment gets a node with
a number of its own, and edges join the nodes.  Nodes and edges are kept as lines, in the order
in which they are written.

* `Flowchart.Line` — nodes and edges;
* `Stmt.isTerminal` — whether a statement always ends in a return;
* `Flowchart.drawStmt`, `Flowchart.drawBody` — the nodes and edges of statements;
* `Flowchart.drawSequence` — a whole body, with an edge from each statement to the next;
* `Flowchart.ofBody` — the chart of an algorithm;
* `Flowchart.render` — its text.
-/

/-! ### Terminal statements -/

mutual

/-- Whether a statement is a return, or a conditional both of whose branches end in such. -/
def Stmt.isTerminal : Stmt → Bool
  | .ret _ => true
  | .ifElse _ body otherwise => Stmt.endsTerminal body && Stmt.endsTerminal otherwise
  | _ => false

/-- Whether the last of several statements is terminal. -/
def Stmt.endsTerminal : List Stmt → Bool
  | [] => false
  | [s] => Stmt.isTerminal s
  | _ :: s :: ss => Stmt.endsTerminal (s :: ss)

end

namespace Flowchart

/-! ### Lines -/

/-- What a numbered node stands for. -/
inductive NodeKind
  | assignment | conditional | forLoop | increment | whileLoop | repeatLoop | call | ret
  /-- Something that is no statement. -/
  | unknown
  deriving DecidableEq, Repr

/-- The letters before a node's number. -/
def NodeKind.mark : NodeKind → String
  | assignment => "ASSIGN" | conditional => "IF" | forLoop => "FOR" | increment => "INCR"
  | whileLoop => "WHILE" | repeatLoop => "REPEAT" | call => "CALL" | ret => "RET"
  | unknown => "STMT"

/-- Nodes: the start, the end, and numbered ones. -/
inductive NodeId
  | start
  | stop
  | step (kind : NodeKind) (number : Nat)
  deriving DecidableEq, Repr

/-- The name of a node. -/
def NodeId.name : NodeId → String
  | start => "START"
  | stop => "END"
  | step kind number => kind.mark ++ toString number

/-- Labels: fixed words, and texts from the program, which are quoted. -/
inductive Label
  | word (text : String)
  | quoted (text : String)
  deriving DecidableEq, Repr

/-- A character inside quotes: brackets and quotes get a backslash. -/
def escapeChar (c : Char) : List Char :=
  if c = '[' || c = ']' || c = '"' then ['\\', c] else [c]

/-- A text with its brackets and quotes escaped. -/
def escapeChars (cs : List Char) : List Char := cs.flatMap escapeChar

/-- A text in quotes. -/
def escape (s : String) : String := "\"" ++ String.ofList (escapeChars s.toList) ++ "\""

/-- The text of a label. -/
def Label.render : Label → String
  | word text => text
  | quoted text => escape text

/-- The outlines of nodes. -/
inductive Shape
  | round | box | decision
  deriving DecidableEq, Repr

/-- An outline around a text. -/
def Shape.around : Shape → String → String
  | round, s => "([" ++ s ++ "])"
  | box, s => "[" ++ s ++ "]"
  | decision, s => "\x7b" ++ s ++ "\x7d"

/-- A line of a chart.  The target of an edge is absent where there was no node to lead to. -/
inductive Line
  | node (id : NodeId) (shape : Shape) (label : Label)
  | edge (source : NodeId) (label : Option Label) (target : Option NodeId)
  deriving DecidableEq, Repr

/-- A plain edge. -/
def Line.link (source target : NodeId) : Line := .edge source none (some target)

/-- An edge with a word on it. -/
def Line.branch (source : NodeId) (word : String) (target : NodeId) : Line :=
  .edge source (some (.word word)) (some target)

/-- The name of an edge's target. -/
def targetName : Option NodeId → String
  | some id => id.name
  | none => "None"

/-- The text of a line. -/
def Line.render : Line → String
  | node id shape label => "    " ++ id.name ++ shape.around label.render
  | edge source none target => "    " ++ source.name ++ " --> " ++ targetName target
  | edge source (some label) target =>
      "    " ++ source.name ++ " -->|" ++ label.render ++ "| " ++ targetName target

/-! ### Drawing -/

/-- What has been drawn: a result, the lines, and the number of the last node. -/
structure Drawn (α : Type) where
  result : α
  lines : List Line
  count : Nat

/-- The first and last nodes of a body, if it has any. -/
structure Ends where
  first : Option NodeId
  last : Option NodeId
  deriving DecidableEq, Repr

/-- A single node. -/
def drawNode (kind : NodeKind) (shape : Shape) (label : String) (n : Nat) : Drawn (Option NodeId) :=
  let id := .step kind (n + 1)
  ⟨some id, [.node id shape (.quoted label)], n + 1⟩

/-- Edges into and out of a branch of a conditional. -/
def branchLines (id : NodeId) (word : String) (ends : Ends) (terminal : Bool) : List Line :=
  match ends.first, ends.last with
  | some first, some last =>
      .branch id word first :: if terminal then [.link last .stop] else []
  | _, _ => []

/-- Edges from the previous node, if there is one. -/
def linkFrom (previous : Option NodeId) (id : NodeId) : List Line :=
  match previous with
  | some p => [.link p id]
  | none => []

mutual

/-- Draws a statement when `n` nodes have been numbered.  A comment is not drawn. -/
def drawStmt (n : Nat) : Stmt → Drawn (Option NodeId)
  | .assign target value =>
      drawNode .assignment .box (target.fullText ++ " := " ++ value.fullText) n
  | .call name arguments =>
      drawNode .call .box
        ("call " ++ name.shown ++ "(" ++ Value.joined ", " (Expr.fullTexts arguments) ++ ")") n
  | .ret value => drawNode .ret .box ("return " ++ value.fullText) n
  | .comment _ => ⟨none, [], n⟩
  | .ifThen condition body =>
      let id := .step .conditional (n + 1)
      let t := drawBody (n + 1) none body
      ⟨some id,
        .node id .decision (.quoted (condition.fullText ++ "?")) :: t.lines
          ++ branchLines id "True" t.result (Stmt.endsTerminal body),
        t.count⟩
  | .ifElse condition body otherwise =>
      let id := .step .conditional (n + 1)
      let t := drawBody (n + 1) none body
      let e := drawBody t.count none otherwise
      ⟨some id,
        .node id .decision (.quoted (condition.fullText ++ "?")) :: t.lines
          ++ branchLines id "True" t.result (Stmt.endsTerminal body) ++ e.lines
          ++ branchLines id "False" e.result (Stmt.endsTerminal otherwise),
        e.count⟩
  | .forLoop name start stop body =>
      let id := .step .forLoop (n + 1)
      let head := .node id .decision
        (.quoted (name.shown ++ " := " ++ start.fullText ++ " to " ++ stop.fullText))
      let b := drawBody (n + 1) none body
      match b.result.first, b.result.last with
      | some first, some last =>
          let next := .step .increment (b.count + 1)
          ⟨some id,
            head :: b.lines
              ++ [.node next .box (.quoted (name.shown ++ " := " ++ name.shown ++ " + 1")),
                .edge id (some (.quoted (name.shown ++ " ≤ " ++ stop.fullText))) (some first),
                .link last next, .link next id],
            b.count + 1⟩
      | _, _ => ⟨some id, head :: b.lines, b.count⟩
  | .whileLoop condition body =>
      let id := .step .whileLoop (n + 1)
      let head := .node id .decision (.quoted condition.fullText)
      let b := drawBody (n + 1) none body
      match b.result.first, b.result.last with
      | some first, some last =>
          ⟨some id, head :: b.lines ++ [.branch id "True" first, .link last id], b.count⟩
      | _, _ => ⟨some id, head :: b.lines, b.count⟩
  | .repeatLoop [] _ =>
      let id := .step .repeatLoop (n + 1)
      ⟨some id, [.node id .box (.word " ")], n + 1⟩
  | .repeatLoop (s :: ss) condition =>
      let b := drawBody n none (s :: ss)
      let id := .step .repeatLoop (b.count + 1)
      ⟨some id,
        b.lines ++ [.node id .decision (.quoted (condition.fullText ++ "?"))]
          ++ linkFrom b.result.last id ++ [.edge id (some (.word "False")) b.result.first],
        b.count + 1⟩
  | .other v => drawNode .unknown .box v.text n

/-- Draws statements one after the other, with plain edges between them, after the previous
    node. -/
def drawBody (n : Nat) (previous : Option NodeId) : List Stmt → Drawn Ends
  | [] => ⟨⟨none, previous⟩, [], n⟩
  | s :: ss =>
      let d := drawStmt n s
      match d.result with
      | none =>
          let r := drawBody d.count previous ss
          ⟨r.result, d.lines ++ r.lines, r.count⟩
      | some id =>
          let r := drawBody d.count (some id) ss
          ⟨⟨some id, r.result.last⟩, d.lines ++ linkFrom previous id ++ r.lines, r.count⟩

end

/-- The edges by which a drawn statement leads to the next node.  What is absent leads
    nowhere. -/
def exitLines (id : NodeId) (s : Stmt) (next : NodeId) : List Line :=
  match s with
  | .forLoop name _ stop _ =>
      [.edge id (some (.quoted (name.shown ++ " > " ++ stop.fullText))) (some next)]
  | .whileLoop _ _ => [.branch id "False" next]
  | .repeatLoop _ _ => [.branch id "True" next]
  | .other .none => []
  | s => if s.isTerminal then [] else [.link id next]

/-- The edges by which the last statement leads to the end.  What counts as false leads
    nowhere. -/
def endLines (id : NodeId) (s : Stmt) : List Line :=
  match s with
  | .ret _ => [.link id .stop]
  | .other v => if v.isTrue then [.link id .stop] else []
  | s => exitLines id s .stop

/-- The node of the end. -/
def endNode : Line := .node .stop .round (.word "Fin")

/-- Draws statements after a previous one, with edges for the ways out of each, and the end. -/
def drawAfter (n : Nat) (previous : Option (NodeId × Stmt)) :
    List Stmt → Drawn (Option NodeId)
  | [] =>
      ⟨none,
        endNode :: match previous with
          | some (id, s) => endLines id s
          | none => [],
        n⟩
  | s :: ss =>
      let d := drawStmt n s
      match d.result with
      | none =>
          let r := drawAfter d.count previous ss
          ⟨r.result, d.lines ++ r.lines, r.count⟩
      | some id =>
          let r := drawAfter d.count (some (id, s)) ss
          let links := match previous with
            | some (p, t) => exitLines p t id
            | none => []
          ⟨some id, d.lines ++ links ++ r.lines, r.count⟩

/-- Draws a whole body and the end.  The result is its first node. -/
def drawSequence (n : Nat) : List Stmt → Drawn (Option NodeId)
  | [] => ⟨some .stop, [endNode], n⟩
  | s :: ss => drawAfter n none (s :: ss)

end Flowchart

/-! ### Charts -/

/-- A chart: its lines, and how many nodes are numbered. -/
structure Flowchart where
  lines : List Flowchart.Line
  count : Nat
  deriving DecidableEq, Repr

namespace Flowchart

/-- The chart of a body under a title. -/
def ofBody (title : String) (body : List Stmt) : Flowchart :=
  let d := drawSequence 0 body
  ⟨.node .start .round (.quoted title) :: d.lines ++ [.edge .start none d.result], d.count⟩

/-- The first line of every chart. -/
def header : String := "flowchart TD"

/-- The text of a chart. -/
def render (f : Flowchart) : String :=
  Value.joined "\n" (header :: f.lines.map Line.render)

end Flowchart

end Ordo
