namespace Ordo

/-!
# Terminals of the pseudocode language

The kinds of token a program is made of, how each is named in a syntax error, and
which of them carry text worth keeping in a parse tree:

* `Terminal` — names, literals, operators, reserved words and punctuation;
* `Terminal.name` — the name a syntax error shows;
* `Terminal.spelling?` — the one text of a terminal that has only one;
* `Terminal.isKept` — whether its tokens appear in parse trees.
-/

/-- The kinds of token. -/
inductive Terminal
  | cname | number | boolean | null | assign | comment
  | plus | minus | star | slash | circumflex
  | kwBegin | kwEnd | kwFor | kwTo | kwDo | kwWhile | kwRepeat | kwUntil | kwIf | kwThen | kwElse
  | kwCall | kwReturn | kwOr | kwAnd | kwNot | kwMod | kwDiv | kwLength
  | lbrace | rbrace | lpar | rpar | lsqb | rsqb | comma | semicolon | dot
  | lessThan | moreThan | equal
  | dots | atMost | atLeast | differs | atMostSign | atLeastSign | differsSign
  | ceilOpen | ceilClose | floorOpen | floorClose
  deriving DecidableEq, Repr

namespace Terminal

/-- Every terminal, in the order in which a lexer tries them: the kinds of unbounded
    length, then longer fixed texts before shorter ones, so that `<=` is never read as `<`. -/
def all : List Terminal :=
  [cname, comment, number, kwRepeat, kwReturn, kwLength,
   boolean, kwBegin, kwUntil, kwWhile,
   null, kwCall, kwElse, kwThen,
   kwAnd, kwDiv, kwEnd, kwFor, kwMod, kwNot,
   assign, dots, atMost, atLeast, differs, kwDo, kwIf, kwOr, kwTo,
   plus, minus, star, slash, circumflex, lbrace, rbrace, lpar, rpar, lsqb, rsqb, comma, semicolon,
   dot, lessThan, moreThan, equal, atMostSign, atLeastSign, differsSign,
   ceilOpen, ceilClose, floorOpen, floorClose]

/-- The name of a terminal in syntax errors: reserved words in capitals, single marks by
    their usual names, and the marks without a usual name numbered. -/
def name : Terminal → String
  | cname => "CNAME" | number => "NUMBER" | boolean => "BOOLEAN" | null => "NULL"
  | assign => "ASSIGN" | comment => "COMMENT"
  | plus => "PLUS" | minus => "MINUS" | star => "STAR" | slash => "SLASH"
  | circumflex => "CIRCUMFLEX"
  | kwBegin => "BEGIN" | kwEnd => "END" | kwFor => "FOR" | kwTo => "TO" | kwDo => "DO"
  | kwWhile => "WHILE" | kwRepeat => "REPEAT" | kwUntil => "UNTIL" | kwIf => "IF"
  | kwThen => "THEN" | kwElse => "ELSE" | kwCall => "CALL" | kwReturn => "RETURN"
  | kwOr => "OR" | kwAnd => "AND" | kwNot => "NOT" | kwMod => "MOD" | kwDiv => "DIV"
  | kwLength => "LENGTH"
  | lbrace => "LBRACE" | rbrace => "RBRACE" | lpar => "LPAR" | rpar => "RPAR"
  | lsqb => "LSQB" | rsqb => "RSQB" | comma => "COMMA" | semicolon => "SEMICOLON" | dot => "DOT"
  | lessThan => "LESSTHAN" | moreThan => "MORETHAN" | equal => "EQUAL"
  | dots => "__ANON_0" | atMost => "__ANON_1" | atLeast => "__ANON_2" | differs => "__ANON_3"
  | atMostSign => "__ANON_4" | atLeastSign => "__ANON_5" | differsSign => "__ANON_6"
  | ceilOpen => "__ANON_7" | ceilClose => "__ANON_8"
  | floorOpen => "__ANON_9" | floorClose => "__ANON_10"

/-- The text of a terminal that is always written the same way. -/
def spelling? : Terminal → Option String
  | cname | number | boolean | null | assign | comment => none
  | plus => some "+" | minus => some "-" | star => some "*" | slash => some "/"
  | circumflex => some "^"
  | kwBegin => some "begin" | kwEnd => some "end" | kwFor => some "for" | kwTo => some "to"
  | kwDo => some "do" | kwWhile => some "while" | kwRepeat => some "repeat"
  | kwUntil => some "until" | kwIf => some "if" | kwThen => some "then" | kwElse => some "else"
  | kwCall => some "call" | kwReturn => some "return" | kwOr => some "or" | kwAnd => some "and"
  | kwNot => some "not" | kwMod => some "mod" | kwDiv => some "div" | kwLength => some "length"
  | lbrace => some "\x7b" | rbrace => some "\x7d" | lpar => some "(" | rpar => some ")"
  | lsqb => some "[" | rsqb => some "]" | comma => some "," | semicolon => some ";"
  | dot => some "." | lessThan => some "<" | moreThan => some ">" | equal => some "="
  | dots => some ".." | atMost => some "<=" | atLeast => some ">=" | differs => some "!="
  | atMostSign => some "≤" | atLeastSign => some "≥" | differsSign => some "≠"
  | ceilOpen => some "┌" | ceilClose => some "┐" | floorOpen => some "└" | floorClose => some "┘"

/-- Reserved words. -/
def isReserved : Terminal → Bool
  | kwBegin | kwEnd | kwFor | kwTo | kwDo | kwWhile | kwRepeat | kwUntil | kwIf | kwThen | kwElse
  | kwCall | kwReturn | kwOr | kwAnd | kwNot | kwMod | kwDiv | kwLength => true
  | _ => false

/-- The reserved words, each with its text. -/
def reserved : List (List Char × Terminal) :=
  all.filterMap fun t =>
    if t.isReserved then t.spelling?.map fun s => (s.toList, t) else none

/-- Whether tokens of this kind appear in parse trees.  Reserved words and punctuation only
    shape the tree and are left out of it. -/
def isKept : Terminal → Bool
  | cname | number | boolean | null | assign | comment
  | plus | minus | star | slash | circumflex => true
  | _ => false

end Terminal

end Ordo
