import Ordo.Decimal.Numeral
import Ordo.Value.Basic

namespace Ordo.Json

/-!
# Reading JSON

Data in JSON, with `NaN` and the infinities as further numbers.  An entry that occurs twice in
an object keeps its first place and takes its last value.

* `Fault`, `ReadError` — what is wrong with a text and where, with the wording;
* `read` — the value of a text.

The text is read as a list of characters that shrinks as it goes.
-/

/-- What is wrong with a text. -/
inductive Fault
  | expectingValue | expectingName | expectingColon | expectingComma | extraData
  | unterminated | controlCharacter | badEscape | badUnicode | byteOrderMark
  deriving DecidableEq, Repr

/-- The wording of a fault. -/
def Fault.message : Fault → String
  | expectingValue => "Expecting value"
  | expectingName => "Expecting property name enclosed in double quotes"
  | expectingColon => "Expecting ':' delimiter"
  | expectingComma => "Expecting ',' delimiter"
  | extraData => "Extra data"
  | unterminated => "Unterminated string starting at"
  | controlCharacter => "Invalid control character at"
  | badEscape => "Invalid \\escape"
  | badUnicode => "Invalid \\uXXXX escape"
  | byteOrderMark => "Unexpected UTF-8 BOM (decode using utf-8-sig)"

/-- Why a text cannot be read. -/
inductive ReadError
  /-- A fault, with its line, column and place. -/
  | syntaxFault (fault : Fault) (line column pos : Nat)
  /-- A number with too many digits. -/
  | numeral (e : Decimal.NumeralError)
  deriving DecidableEq, Repr

/-- The wording of an error. -/
def ReadError.message : ReadError → String
  | syntaxFault fault line column pos =>
      fault.message ++ ": line " ++ toString line ++ " column " ++ toString column
        ++ " (char " ++ toString pos ++ ")"
  | numeral e => e.message

/-- An error before its line and column are known. -/
inductive Trouble
  /-- A fault before the last `left` characters. -/
  | at (fault : Fault) (left : Nat)
  | numeral (e : Decimal.NumeralError)

/-- What is left to read. -/
abbrev Rest := List Char

/-- The blanks between parts. -/
def isSpace (c : Char) : Bool := c = ' ' || c = '\t' || c = '\n' || c = '\r'

/-- A text without the blanks it starts with. -/
def skipSpace (cs : List Char) : List Char := cs.dropWhile isSpace

/-- The value of a digit in base sixteen. -/
def hexValue? (c : Char) : Option Nat :=
  if '0' ≤ c ∧ c ≤ '9' then some (c.toNat - 48)
  else if 'a' ≤ c ∧ c ≤ 'f' then some (c.toNat - 87)
  else if 'A' ≤ c ∧ c ≤ 'F' then some (c.toNat - 55)
  else none

/-- The number of four digits in base sixteen. -/
def hex4? (a b c d : Char) : Option Nat :=
  match hexValue? a, hexValue? b, hexValue? c, hexValue? d with
  | some a, some b, some c, some d => some (((a * 16 + b) * 16 + c) * 16 + d)
  | _, _, _, _ => none

/-- The character of a unit that is not half of a pair. -/
def unitChar (n : Nat) : Char := if n.isValidChar then Char.ofNat n else '\ufffd'

/-- The characters of units, of which two may be the halves of one character. -/
def unitChars : List Nat → List Char
  | n :: m :: ns =>
      if 0xD800 ≤ n ∧ n < 0xDC00 ∧ 0xDC00 ≤ m ∧ m < 0xE000 then
        Char.ofNat (0x10000 + (n - 0xD800) * 0x400 + (m - 0xDC00)) :: unitChars ns
      else unitChar n :: unitChars (m :: ns)
  | [n] => [unitChar n]
  | [] => []

/-- The character that a single letter after a backslash stands for. -/
def escaped? (c : Char) : Option Char :=
  if c = '"' ∨ c = '\\' ∨ c = '/' then some c
  else if c = 'b' then some '\x08'
  else if c = 'f' then some '\x0c'
  else if c = 'n' then some '\n'
  else if c = 'r' then some '\r'
  else if c = 't' then some '\t'
  else none

/-- The rest of a string, after its opening quote with `start` characters left; `acc` holds the
    units so far in reverse. -/
def readString (start : Nat) : List Nat → List Char → Except Trouble (String × Rest)
  | _, [] => .error (.at .unterminated start)
  | acc, c :: cs =>
      if c = '"' then .ok (String.ofList (unitChars acc.reverse), cs)
      else if c.toNat < 32 then .error (.at .controlCharacter (cs.length + 1))
      else if c ≠ '\\' then readString start (c.toNat :: acc) cs
      else
        match cs with
        | 'u' :: a :: b :: c :: d :: e :: rest =>
            match hex4? a b c d with
            | some n => readString start (n :: acc) (e :: rest)
            | none => .error (.at .badUnicode (rest.length + 6))
        | e :: rest =>
            match escaped? e with
            | some x => readString start (x.toNat :: acc) rest
            | none =>
                .error (if e = 'u' then .at .badUnicode (rest.length + 1)
                  else .at .badEscape (rest.length + 2))
        | [] => .error (.at .unterminated start)

/-- A string, after its opening quote. -/
def readQuoted (cs : List Char) : Except Trouble (String × Rest) :=
  readString (cs.length + 1) [] cs

/-- The digits that a text starts with, and the rest. -/
def digits (cs : List Char) : List Char × List Char :=
  (cs.takeWhile Char.isDigit, cs.dropWhile Char.isDigit)

/-- One of some signs, if a text starts with one. -/
def optional (signs cs : List Char) : List Char × List Char :=
  match cs with
  | c :: rest => if c ∈ signs then ([c], rest) else ([], cs)
  | [] => ([], [])

/-- The digits of a number before its point. -/
def whole (cs : List Char) : List Char × List Char :=
  match cs with
  | '0' :: rest => (['0'], rest)
  | _ => digits cs

/-- A mark, perhaps a sign, and digits. -/
def marked (marks signs cs : List Char) : List Char × List Char :=
  match cs with
  | c :: rest =>
      let (sign, body) := optional signs rest
      let (ds, after) := digits body
      if c ∈ marks ∧ ds ≠ [] then (c :: (sign ++ ds), after) else ([], cs)
  | [] => ([], [])

/-- The number that is written, which is whole without a fraction and an exponent. -/
def numberOf (lexeme : List Char) : Except Decimal.NumeralError Value :=
  if lexeme.any (· ∈ ['.', 'e', 'E']) then .float <$> Decimal.readReal (String.ofList lexeme)
  else .int <$> Decimal.readWhole (String.ofList lexeme)

/-- A number. -/
def readNumber (cs : List Char) : Except Trouble (Value × Rest) :=
  let (sign, body) := optional ['-'] cs
  let (whole, rest) := whole body
  let (frac, rest) := marked ['.'] [] rest
  let (exp, rest) := marked ['e', 'E'] ['-', '+'] rest
  if whole = [] then .error (.at .expectingValue cs.length)
  else
    match numberOf (sign ++ (whole ++ (frac ++ exp))) with
    | .ok v => .ok (v, rest)
    | .error e => .error (.numeral e)

/-- Words that are values. -/
def constants : List (List Char × Value) :=
  [("null".toList, .none), ("true".toList, .bool true), ("false".toList, .bool false),
   ("NaN".toList, .float (0.0 / 0.0)), ("Infinity".toList, .float (1.0 / 0.0)),
   ("-Infinity".toList, .float (-1.0 / 0.0))]

/-- The word that a text starts with, and the rest. -/
def constant? (cs : List Char) : Option (Value × Rest) :=
  (constants.find? fun (w, _) => w.isPrefixOf cs).map fun (w, v) => (v, cs.drop w.length)

/-- Puts an entry into an object: at the place of an entry of that name, or else last. -/
def putEntry : List (String × Value) → String × Value → List (String × Value)
  | [], e => [e]
  | (k, v) :: es, e => if k = e.1 then (k, e.2) :: es else (k, v) :: putEntry es e

/-- The members of an array or object from a first one on; `fuel` bounds their number. -/
def readMembers {α : Type} (member : List Char → Except Trouble (α × Rest)) (close : Char) :
    Nat → List Char → Except Trouble (List α × Rest)
  | 0, cs => .error (.at .expectingValue cs.length)
  | fuel + 1, cs => do
      let (a, rest) ← member cs
      match skipSpace rest with
      | ',' :: rest =>
          let (as, rest) ← readMembers member close fuel (skipSpace rest)
          return (a :: as, rest)
      | rest =>
          if rest.head? = some close then return ([a], rest.tail)
          else throw (.at .expectingComma rest.length)

/-- The members of an array or object, after its opening bracket. -/
def readGroup {α : Type} (member : List Char → Except Trouble (α × Rest)) (close : Char)
    (cs : List Char) : Except Trouble (List α × Rest) :=
  let cs := skipSpace cs
  if cs.head? = some close then .ok ([], cs.tail) else readMembers member close (cs.length + 1) cs

/-- An entry of an object: a name and a value. -/
def readEntry (value : List Char → Except Trouble (Value × Rest)) :
    List Char → Except Trouble ((String × Value) × Rest)
  | '"' :: cs => do
      let (key, rest) ← readQuoted cs
      match skipSpace rest with
      | ':' :: rest =>
          let (v, rest) ← value (skipSpace rest)
          return ((key, v), rest)
      | rest => throw (.at .expectingColon rest.length)
  | cs => .error (.at .expectingName cs.length)

/-- A value at the start of a text; `fuel` bounds the nesting. -/
def readValue : Nat → List Char → Except Trouble (Value × Rest)
  | 0, cs => .error (.at .expectingValue cs.length)
  | _, [] => .error (.at .expectingValue 0)
  | fuel + 1, c :: cs =>
      if c = '"' then do
        let (s, rest) ← readQuoted cs
        return (.str s, rest)
      else if c = '\x7b' then do
        let (es, rest) ← readGroup (readEntry (readValue fuel)) '\x7d' cs
        return (.dict (es.foldl putEntry []), rest)
      else if c = '[' then do
        let (vs, rest) ← readGroup (readValue fuel) ']' cs
        return (.list vs, rest)
      else
        match constant? (c :: cs) with
        | some found => .ok found
        | none => readNumber (c :: cs)

/-- The line and column of a place in a text. -/
def lineColumn (cs : List Char) (pos : Nat) : Nat × Nat :=
  (cs.take pos).foldl
    (fun (line, column) c => if c = '\n' then (line + 1, 1) else (line, column + 1)) (1, 1)

/-- Finds the line and column of an error. -/
def Trouble.locate (cs : List Char) : Trouble → ReadError
  | .at fault left =>
      let pos := cs.length - left
      let (line, column) := lineColumn cs pos
      .syntaxFault fault line column pos
  | .numeral e => .numeral e

/-- The value of a text in JSON. -/
def readChars (cs : List Char) : Except ReadError Value :=
  match cs with
  | '\ufeff' :: _ => .error (Trouble.locate cs (.at .byteOrderMark cs.length))
  | _ =>
      match readValue cs.length (skipSpace cs) with
      | .error e => .error (e.locate cs)
      | .ok (v, rest) =>
          match skipSpace rest with
          | [] => .ok v
          | rest => .error (Trouble.locate cs (.at .extraData rest.length))

/-- The value of a text in JSON. -/
def read (s : String) : Except ReadError Value := readChars s.toList

end Ordo.Json
