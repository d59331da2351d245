import Ordo.Text.Digit
import Ordo.Grammar.Terminal

namespace Ordo

/-!
# Tokens

How a program text is cut into tokens.  What a text starts with depends on the terminals
that are possible there, the *context*: a word is a name unless the context also has that
reserved word, and in a context without names a reserved word is found even where letters
follow it.

* `Place` — a position in a text, counted in characters and in lines and columns;
* `Token` — a terminal with its text and place;
* `Terminal.lexeme?` — the text of a terminal that a text starts with;
* `lexIn` — the first token of a text in a context;
* `skipLayout` — the text without the layout it starts with.
-/

/-- A place in a text: characters before it, and its line and column, both from 1. -/
structure Place where
  pos : Nat
  line : Nat
  column : Nat
  deriving DecidableEq, Repr

namespace Place

/-- Where a text begins. -/
def origin : Place := ⟨0, 1, 1⟩

/-- The place after one more character.  Only a line feed ends a line. -/
def step (p : Place) (c : Char) : Place :=
  if c = '\n' then ⟨p.pos + 1, p.line + 1, 1⟩ else ⟨p.pos + 1, p.line, p.column + 1⟩

/-- The place after more characters. -/
def advance (p : Place) (cs : List Char) : Place := cs.foldl step p

end Place

/-- A piece of a program text. -/
structure Token where
  kind : Terminal
  text : String
  place : Place
  deriving DecidableEq, Repr

/-- The characters between tokens: space, tab, form feed, carriage return, line feed. -/
def isLayout (c : Char) : Bool :=
  c = ' ' || c = '\t' || c = '\x0c' || c = '\r' || c = '\n'

/-- A letter or underscore, which a name may start with. -/
def isNameStart (c : Char) : Bool := c.isAlpha || c = '_'

/-- A letter, digit or underscore, which a name may go on with. -/
def isNameChar (c : Char) : Bool := c.isAlphanum || c = '_'

/-- What is left of a text after a given beginning. -/
def afterPrefix? : List Char → List Char → Option (List Char)
  | [], rest => some rest
  | _ :: _, [] => none
  | a :: as, c :: cs => if a = c then afterPrefix? as cs else none

/-- The first of several texts that a text starts with, and the rest. -/
def firstPrefix? (choices : List (List Char)) (cs : List Char) : Option (List Char × List Char) :=
  choices.findSome? fun s => (afterPrefix? s cs).map fun rest => (s, rest)

/-- A numeral that a text starts with: digits, then perhaps a point and more digits. -/
def numeral? (cs : List Char) : Option (List Char × List Char) :=
  let whole := cs.takeWhile Text.isDecimal
  let rest := cs.dropWhile Text.isDecimal
  if whole.isEmpty then none
  else match rest with
    | '.' :: after =>
        let fraction := after.takeWhile Text.isDecimal
        if fraction.isEmpty then some (whole, rest)
        else some (whole ++ '.' :: fraction, after.dropWhile Text.isDecimal)
    | _ => some (whole, rest)

/-- The text of a given terminal that a text starts with, and the rest. -/
def Terminal.lexeme? (t : Terminal) (cs : List Char) : Option (List Char × List Char) :=
  match t, cs with
  | .cname, c :: rest =>
      if isNameStart c then some (c :: rest.takeWhile isNameChar, rest.dropWhile isNameChar)
      else none
  | .comment, c :: rest =>
      if c = '►' then some (c :: rest.takeWhile (· ≠ '\n'), rest.dropWhile (· ≠ '\n'))
      else none
  | .number, cs => numeral? cs
  | .boolean, cs => firstPrefix? ["false".toList, "true".toList, "T".toList, "F".toList] cs
  | .null, cs => firstPrefix? ["NULL".toList, "null".toList] cs
  | .assign, cs => firstPrefix? [":=".toList, "🡨".toList] cs
  | t, cs =>
      match t.spelling? with
      | some s => (afterPrefix? s.toList cs).map fun rest => (s.toList, rest)
      | none => none

/-- The kind of a lexeme: a name that spells a reserved word of the context is that word. -/
def wordKind (context : Terminal → Bool) (kind : Terminal) (lexeme : List Char) : Terminal :=
  if kind = .cname then
    match Terminal.reserved.lookup lexeme with
    | some word => if context word then word else kind
    | none => kind
  else kind

/-- The first token of a text in a context, and the rest: the first terminal of the context,
    in the order of `Terminal.all`, that the text starts with. -/
def lexIn (context : Terminal → Bool) (place : Place) (cs : List Char) :
    Option (Token × List Char) :=
  Terminal.all.findSome? fun t =>
    if context t then
      (t.lexeme? cs).map fun (lexeme, rest) =>
        (⟨wordKind context t lexeme, String.ofList lexeme, place⟩, rest)
    else none

/-- A text without the layout it starts with, and its place. -/
def skipLayout : Place → List Char → Place × List Char
  | p, [] => (p, [])
  | p, c :: cs => if isLayout c then skipLayout (p.step c) cs else (p, c :: cs)

end Ordo
