import Ordo.Decimal.Nearest
import Ordo.Text.Blank
import Ordo.Text.Digit
import Ordo.Text.Quoted

namespace Ordo.Decimal

/-!
# Reading numbers

Whole and real numbers as they may be written: with blanks around them, a sign, decimal
digits of any script and single underscores between digits.

* `NumeralError` — why a text is no number, with its wording;
* `digitLimit` — the most digits a whole number may have;
* `readWhole` — whole numbers;
* `readReal` — real numbers, rounded to the nearest double.
-/

/-- Why a text is no number. -/
inductive NumeralError
  | notWhole (text : String)
  | notReal (text : String)
  | tooLong (digits : Nat)
  deriving DecidableEq, Repr

/-- The most digits of a whole number that is read or written. -/
def digitLimit : Nat := 4300

/-- How many characters of a quoted text an error about a whole number shows. -/
def shownLength : Nat := 200

/-- The wording of an error.  A text that is no whole number is shown only in part if it is
    long. -/
def NumeralError.message : NumeralError → String
  | notWhole text =>
      "invalid literal for int() with base 10: "
        ++ String.ofList ((Text.quote text).toList.take shownLength)
  | notReal text => "could not convert string to float: " ++ Text.quote text
  | tooLong digits =>
      "Exceeds the limit (4300 digits) for integer string conversion: value has "
        ++ Nat.repr digits ++ " digits; use sys.set_int_max_str_digits() to increase the limit"

/-- Blanks allowed around a number: all but the separator controls. -/
def isNumeralBlank (c : Char) : Bool := Text.isBlank c && !(28 ≤ c.toNat && c.toNat ≤ 31)

/-- A text without blanks around it. -/
def bare (cs : List Char) : List Char :=
  ((cs.dropWhile isNumeralBlank).reverse.dropWhile isNumeralBlank).reverse

/-- The sign of a numeral, and the rest. -/
def sign : List Char → Bool × List Char
  | '-' :: cs => (true, cs)
  | '+' :: cs => (false, cs)
  | cs => (false, cs)

/-- The digits that a text starts with, which single underscores may part, and the rest;
    `parted` says whether an underscore may come next. -/
def digitRunFrom (parted : Bool) : List Char → List Nat × List Char
  | [] => ([], [])
  | c :: cs =>
      match Text.digitValue? c with
      | some d =>
          let (ds, rest) := digitRunFrom true cs
          (d :: ds, rest)
      | none =>
          if c = '_' && parted && cs.head?.any Text.isDecimal then digitRunFrom false cs
          else ([], c :: cs)

/-- The digits that a text starts with, which single underscores may part, and the rest. -/
def digitRun (cs : List Char) : List Nat × List Char := digitRunFrom false cs

/-- The number that digits stand for. -/
def ofDigits (ds : List Nat) : Nat := ds.foldl (fun n d => 10 * n + d) 0

/-- A whole number. -/
def readWhole (text : String) : Except NumeralError Int :=
  let (negative, body) := sign (bare text.toList)
  let (ds, rest) := digitRun body
  if ds.isEmpty then .error (.notWhole text)
  else if digitLimit < ds.length ∧ rest.head? ≠ some '_' then .error (.tooLong ds.length)
  else if !rest.isEmpty then .error (.notWhole text)
  else .ok (if negative then -(ofDigits ds : Int) else ofDigits ds)

/-- The double nearest to `m * 10 ^ e`. -/
def scientific (m : Nat) (e : Int) : Float :=
  let size := (Nat.log2 m : Int) * 30103 / 100000 + e
  if m = 0 then 0.0
  else if size > 400 then Float.ofBits (UInt64.ofNat infinityBits)
  else if size < -400 then 0.0
  else if 0 ≤ e then nearest (m * Nat.pow 10 e.toNat) 1
  else nearest m (Nat.pow 10 (-e).toNat)

/-- The exponent part of a real number, if the text has nothing after it. -/
def exponent? : List Char → Option Int
  | [] => some 0
  | c :: cs =>
      if c = 'e' ∨ c = 'E' then
        let (negative, body) := sign cs
        let (ds, rest) := digitRun body
        if ds.isEmpty || !rest.isEmpty then none
        else some (if negative then -(ofDigits ds : Int) else ofDigits ds)
      else none

/-- A real number written with digits, a point and an exponent. -/
def readReal (text : String) : Except NumeralError Float :=
  let (negative, body) := sign (bare text.toList)
  let (whole, rest) := digitRun body
  let (fraction, rest) := match rest with
    | '.' :: after => digitRun after
    | _ => ([], rest)
  if whole.isEmpty && fraction.isEmpty then .error (.notReal text)
  else match exponent? rest with
    | none => .error (.notReal text)
    | some e =>
        let size := scientific (ofDigits (whole ++ fraction)) (e - fraction.length)
        .ok (if negative then -size else size)

end Ordo.Decimal
