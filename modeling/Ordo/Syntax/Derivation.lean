import Ordo.Grammar.Rules
import Ordo.Syntax.Token

namespace Ordo

/-!
# Derivations and parse trees

A derivation is a parse with nothing left out: tokens at the leaves and one node for each
production used.  A parse tree is what a reader wants to see of it: reserved words and
punctuation are dropped, and repetitions are spliced into the node around them.

* `Derivation`, `Derivation.symbol` — a complete parse and the symbol it derives;
* `ParseTree`, `Derivation.forest` — its readable form;
* `ParseTree.pretty` — a parse tree as indented text.
-/

/-- A complete parse. -/
inductive Derivation
  | leaf (t : Token)
  | node (p : Production) (children : List Derivation)

namespace Derivation

/-- The grammar symbol that a derivation derives. -/
def symbol : Derivation → Symbol
  | leaf t => .terminal t.kind
  | node p _ => .nonterminal p.lhs

end Derivation

/-- A parse without punctuation and repetition nodes. -/
inductive ParseTree
  | leaf (t : Token)
  | node (rule : Rule) (children : List ParseTree)

mutual

/-- The parse trees that a derivation contributes to the node above it. -/
def Derivation.forest : Derivation → List ParseTree
  | .leaf t => if t.kind.isKept then [.leaf t] else []
  | .node p children =>
      match p.lhs with
      | .rule r => [.node r (Derivation.forests children)]
      | .many _ => Derivation.forests children

/-- The parse trees that several derivations contribute, in order. -/
def Derivation.forests : List Derivation → List ParseTree
  | [] => []
  | d :: rest => d.forest ++ Derivation.forests rest

end

namespace ParseTree

mutual

/-- The lines of a parse tree, indented by two spaces for each level, in front of other lines.
    A node whose only child is a token shares its line with it, after a tab. -/
def linesAt (indent : String) : ParseTree → List String → List String
  | .leaf t, rest => (indent ++ t.text ++ "\n") :: rest
  | .node r [.leaf t], rest => (indent ++ r.name ++ "\t" ++ t.text ++ "\n") :: rest
  | .node r children, rest =>
      (indent ++ r.name ++ "\n") :: linesAll (indent ++ "  ") children rest

/-- The lines of several parse trees in front of other lines. -/
def linesAll (indent : String) : List ParseTree → List String → List String
  | [], rest => rest
  | t :: ts, rest => linesAt indent t (linesAll indent ts rest)

end

/-- A parse tree as indented text. -/
def pretty (t : ParseTree) : String := String.join (linesAt "" t [])

end ParseTree

end Ordo
