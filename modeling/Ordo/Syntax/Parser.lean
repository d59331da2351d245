import Ordo.Automaton.Table
import Ordo.Syntax.Derivation

namespace Ordo

/-!
# Parsing

The parser keeps a stack of states, each with the derivation that led to it.  In each state
it reads the next token in the context of that state, reduces completed productions as the
table says, and shifts the token.

* `Frame`, `Stack` — the stack;
* `reduceAll` — all reductions before a token, and the state that then shifts it;
* `SyntaxError` — why a text is no program;
* `derive` — the derivation of a program text;
* `parse` — its parse tree.
-/

open Automaton

/-- A state with the derivation read on the way to it. -/
structure Frame where
  state : Nat
  derivation : Derivation

/-- The stack, top first; below it lies the start state. -/
abbrev Stack := List Frame

namespace Stack

/-- The state on top. -/
def state : Stack → Nat
  | [] => 0
  | f :: _ => f.state

/-- The stack after a production: its right side is taken from the top and its left side put
    there.  `none` if the top does not hold the right side, or the left side cannot stand
    there. -/
def reduce? (stack : Stack) (p : Production) : Option Stack :=
  let children := (stack.take p.rhs.length).reverse.map (·.derivation)
  let below : Stack := stack.drop p.rhs.length
  if children.map Derivation.symbol = p.rhs then
    (goto? below.state p.lhs).map fun target => ⟨target, .node p children⟩ :: below
  else none

end Stack

/-- What comes of feeding a token, or the end of the input, to a stack. -/
inductive Feeding
  /-- The token can be shifted, to the given state. -/
  | shift (target : Nat) (stack : Stack)
  /-- The input may end here; its derivation. -/
  | accept (d : Derivation)
  /-- There is no action; the stack after the reductions that came before. -/
  | stuck (stack : Stack)

/-- Reduces as the lookahead demands, at most `fuel` times, up to the action that decides.
    Reducing the start rule accepts. -/
def reduceAll (a : Lookahead) : Nat → Stack → Feeding
  | 0, stack => .stuck stack
  | fuel + 1, stack =>
      match action? stack.state a with
      | none => .stuck stack
      | some (.shift target) => .shift target stack
      | some (.reduce r) =>
          match r.production? with
          | none => .stuck stack
          | some p =>
              if p.lhs = .rule .start then
                match stack with
                | [f] => .accept (.node p [f.derivation])
                | _ => .stuck stack
              else
                match stack.reduce? p with
                | some next => reduceAll a fuel next
                | none => .stuck stack

/-- A bound on the reductions before a token: a reduction either takes symbols from the stack
    or climbs by one production of a single symbol, and such climbs do not repeat. -/
def reductionLimit (stack : Stack) : Nat := (stack.length + 1) * (Nonterminal.count + 1)

/-- Feeds a lookahead to a stack. -/
def feed (a : Lookahead) (stack : Stack) : Feeding :=
  reduceAll a (reductionLimit stack) stack

/-- The lookaheads that a stack can really take: those that are shifted, or accepted, after
    the reductions they cause. -/
def acceptable (stack : Stack) : List Lookahead :=
  Lookahead.all.filter fun a =>
    match feed a stack with
    | .stuck _ => false
    | _ => true

/-- Why a text is no program. -/
inductive SyntaxError
  /-- A token that cannot stand here, with what could. -/
  | unexpectedToken (token : Token) (expected : List Lookahead)
  /-- The text ends too early; the place of its last token, and what could come next. -/
  | unexpectedEnd (last : Place) (expected : List Lookahead)
  /-- No token starts with this character. -/
  | unexpectedCharacter (char : Char) (place : Place)

/-- The rest of a parse: at most `fuel` tokens of `cs`, which stands at `place`, on top of a
    stack; `last` is the place of the last token read. -/
def deriveFrom : Nat → Stack → Place → Place → List Char → Except SyntaxError Derivation
  | 0, stack, last, _, _ => .error (.unexpectedEnd last (acceptable stack))
  | fuel + 1, stack, last, place, cs =>
      match skipLayout place cs with
      | (_, []) =>
          match feed none stack with
          | .accept d => .ok d
          | .shift _ stack | .stuck stack => .error (.unexpectedEnd last (acceptable stack))
      | (place, c :: cs) =>
          match lexIn (takes stack.state) place (c :: cs) with
          | some (token, rest) =>
              match feed (some token.kind) stack with
              | .shift target stack =>
                  deriveFrom fuel (⟨target, .leaf token⟩ :: stack) place
                    (place.advance token.text.toList) rest
              | .accept _ => .error (.unexpectedToken token [])
              | .stuck stack => .error (.unexpectedToken token (acceptable stack))
          | none =>
              match lexIn (fun _ => true) place (c :: cs) with
              | some (token, _) => .error (.unexpectedToken token (acceptable stack))
              | none => .error (.unexpectedCharacter c place)

/-- The derivation of a program text. -/
def derive (cs : List Char) : Except SyntaxError Derivation :=
  deriveFrom (cs.length + 1) [] Place.origin Place.origin cs

/-- The parse tree of a derivation of the start rule. -/
def Derivation.parseTree (d : Derivation) : ParseTree :=
  match d.forest with
  | t :: _ => t
  | [] => .node .start []

/-- The parse tree of a program text. -/
def parse (text : String) : Except SyntaxError ParseTree :=
  (derive text.toList).map Derivation.parseTree

end Ordo
