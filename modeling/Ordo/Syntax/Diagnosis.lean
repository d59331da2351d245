import Ordo.Syntax.Parser
import Ordo.Text.Quoted

namespace Ordo

/-!
# Explaining syntax errors

What a syntax error says, what could have stood in its place, and the line it is on.

* `SyntaxError.message` — one line about an error;
* `SyntaxError.expectedNames` — the names of the terminals that could have come;
* `contextAt` — the surroundings of a place in a text, with a mark below it;
* `unifyLines` — a text with every line end written as a line feed.
-/

/-- The name of a lookahead. -/
def lookaheadName : Automaton.Lookahead → String
  | some t => t.name
  | none => "$END"

/-- The first line of an error about a token. -/
def unexpectedText (name text : String) (p : Place) : String :=
  "Unexpected token Token(" ++ Text.quote name ++ ", " ++ Text.quote text ++ ") at line "
    ++ toString p.line ++ ", column " ++ toString p.column ++ "."

namespace SyntaxError

/-- One line about an error. -/
def message : SyntaxError → String
  | unexpectedToken t _ => unexpectedText t.kind.name t.text t.place
  | unexpectedEnd p _ => unexpectedText "$END" "" p
  | unexpectedCharacter c p =>
      "No terminal matches '" ++ String.singleton c ++ "' in the current parser context, at line "
        ++ toString p.line ++ " col " ++ toString p.column

/-- The names of what could have come, in alphabetical order. -/
def expectedNames : SyntaxError → List String
  | unexpectedToken _ expected | unexpectedEnd _ expected =>
      (expected.map lookaheadName).mergeSort (· ≤ ·)
  | unexpectedCharacter _ _ => []

end SyntaxError

/-- The width of a line, whose tabs reach to the next multiple of eight; `column` is the
    column in the line, which a carriage return sets back, and `width` all that was written. -/
def widthFrom (column width : Nat) : List Char → Nat
  | [] => width
  | c :: cs =>
      if c = '\t' then
        let step := 8 - column % 8
        widthFrom (column + step) (width + step) cs
      else if c = '\r' ∨ c = '\n' then widthFrom 0 (width + 1) cs
      else widthFrom (column + 1) (width + 1) cs

/-- How many characters are shown on each side of a place. -/
def contextSpan : Nat := 40

/-- The part of the line around a place, and a mark below the place. -/
def contextAt (text : String) (pos : Nat) : String :=
  let cs := text.toList
  let before := ((cs.take pos).drop (pos - contextSpan)).reverse.takeWhile (· ≠ '\n') |>.reverse
  let after := ((cs.drop pos).take contextSpan).takeWhile (· ≠ '\n')
  let margin := List.replicate (widthFrom 0 0 before) ' '
  String.ofList (before ++ after ++ '\n' :: margin ++ ['^', '\n'])

/-- Every line end as one line feed. -/
def unifyLineEnds : List Char → List Char
  | [] => []
  | '\r' :: '\n' :: cs => '\n' :: unifyLineEnds cs
  | '\r' :: cs => '\n' :: unifyLineEnds cs
  | c :: cs => c :: unifyLineEnds cs

/-- A text with every line end written as a line feed. -/
def unifyLines (text : String) : String := String.ofList (unifyLineEnds text.toList)

end Ordo
