import Ordo.Text.Printable

namespace Ordo.Text

/-!
# Quoted text

A text between quotes, in which whatever cannot be shown is written as an escape.  The quotes
are single ones, unless the text holds single quotes and no double quotes.

* `quote` — the quoted form of a text.
-/

/-- A digit in base sixteen. -/
def hexDigit (n : Nat) : Char := "0123456789abcdef".toList.getD (n % 16) '0'

/-- The last `width` digits of a number in base sixteen. -/
def hex : Nat → Nat → List Char
  | 0, _ => []
  | width + 1, n => hex width (n / 16) ++ [hexDigit n]

/-- One character of a quoted text whose quote is `q`. -/
def quoteChar (q c : Char) : List Char :=
  if c = q ∨ c = '\\' then ['\\', c]
  else if c = '\t' then ['\\', 't']
  else if c = '\n' then ['\\', 'n']
  else if c = '\r' then ['\\', 'r']
  else if isPrintable c then [c]
  else if c.toNat < 0x100 then '\\' :: 'x' :: hex 2 c.toNat
  else if c.toNat < 0x10000 then '\\' :: 'u' :: hex 4 c.toNat
  else '\\' :: 'U' :: hex 8 c.toNat

/-- The quote that a text is written with. -/
def quoteMark (cs : List Char) : Char :=
  if cs.contains '\'' && !cs.contains '"' then '"' else '\''

/-- A text between quotes. -/
def quoteChars (cs : List Char) : List Char :=
  let q := quoteMark cs
  q :: cs.flatMap (quoteChar q) ++ [q]

/-- A text between quotes. -/
def quote (s : String) : String := String.ofList (quoteChars s.toList)

end Ordo.Text
