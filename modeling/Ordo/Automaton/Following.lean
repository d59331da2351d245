import Ordo.Grammar.Rules

namespace Ordo.Automaton

/-!
# What may follow a phrase

A completed phrase is reduced only before a token that may come after it.

* `Lookahead` — the next token as the automaton sees it;
* `Following` — what may come next: the end of the text, or one of some terminals;
* `afterStatement`, `afterExpression`, … — the terminals that may follow the main phrases.

An expression may end wherever one of its parts may, so the sets grow from statements down to
operands: what may follow a sum may also follow its last term.
-/

/-- The next token as the automaton sees it; `none` is the end of the text. -/
abbrev Lookahead := Option Terminal

/-- Every lookahead. -/
def Lookahead.all : List Lookahead := none :: Terminal.all.map some

/-- What may come after a phrase. -/
inductive Following
  /-- Only the end of the text. -/
  | nothing
  /-- One of these terminals. -/
  | anyOf (ts : List Terminal)

/-- Whether a lookahead may come next. -/
def Following.admits : Following → Lookahead → Bool
  | nothing, none => true
  | nothing, some _ => false
  | anyOf _, none => false
  | anyOf ts, some t => ts.contains t

/-- What a definition or the main algorithm starts with. -/
def beforeDefinition : List Terminal :=
  [.cname, .kwBegin]

/-- What a statement starts with. -/
def statementStart : List Terminal :=
  [.cname, .comment, .kwFor, .kwWhile, .kwRepeat, .kwIf, .kwCall, .kwReturn]

/-- What comes after statements. -/
def afterStatements : List Terminal :=
  .kwEnd :: .kwUntil :: statementStart

/-- What comes after a statement. -/
def afterStatement : List Terminal :=
  .kwElse :: afterStatements

/-- What comes after a statement that a semicolon may end. -/
def afterSimple : List Terminal :=
  .semicolon :: afterStatement

/-- What comes after an expression. -/
def afterExpression : List Terminal :=
  [.rpar, .rsqb, .comma, .dots, .kwTo, .kwDo, .ceilClose, .floorClose] ++ afterSimple

/-- What comes after an operand of a disjunction. -/
def afterConjunction : List Terminal :=
  .kwOr :: afterExpression

/-- What comes after an operand of a conjunction. -/
def afterNegation : List Terminal :=
  .kwAnd :: afterConjunction

/-- What comes after a side of a comparison. -/
def afterComparand : List Terminal :=
  [.lessThan, .moreThan, .atMost, .atLeast, .equal, .differs, .atMostSign, .atLeastSign,
   .differsSign] ++ afterNegation

/-- What comes after a term of a sum. -/
def afterTerm : List Terminal :=
  .plus :: .minus :: afterComparand

/-- What comes after a factor of a product. -/
def afterFactor : List Terminal :=
  [.star, .slash, .kwMod, .kwDiv] ++ afterTerm

/-- What comes after the base or an exponent of a power. -/
def afterAtom : List Terminal :=
  .circumflex :: afterFactor

/-- What comes after a variable. -/
def afterDesignator : List Terminal :=
  .assign :: afterAtom

/-- What comes after an index of a variable. -/
def afterIndex : List Terminal :=
  .lsqb :: afterDesignator

/-- What a side of a comparison starts with. -/
def operandStart : List Terminal :=
  [.plus, .minus, .number, .boolean, .null, .lpar, .cname, .ceilOpen, .floorOpen, .kwLength]

end Ordo.Automaton
