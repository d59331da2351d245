namespace Ordo.Text

/-!
# Decimal digits

The decimal digits of every script.  Each script that has them lists its ten
digits in a row, so the class is fixed by the code points of the zeros:

* `decimalZeros` — the code point of each script's zero;
* `digitValue?` — the value of a decimal digit, `none` for any other character;
* `isDecimal` — the class itself.
-/

/-- Code points of the digit zero, script by script, in increasing order. -/
def decimalZeros : List Nat :=
  [48, 1632, 1776, 1984, 2406, 2534, 2662, 2790, 2918, 3046, 3174, 3302, 3430, 3558, 3664,
   3792, 3872, 4160, 4240, 6112, 6160, 6470, 6608, 6784, 6800, 6992, 7088, 7232, 7248, 42528,
   43216, 43264, 43472, 43504, 43600, 44016, 65296, 66720, 68912, 69734, 69872, 69942, 70096,
   70384, 70736, 70864, 71248, 71360, 71472, 71904, 72016, 72784, 73040, 73120, 92768, 92864,
   93008, 120782, 120792, 120802, 120812, 120822, 123200, 123632, 125264, 130032]

/-- The value of a code point as a decimal digit, looked up script by script. -/
def digitOfCode? (n : Nat) : Option Nat :=
  (decimalZeros.find? fun z => z ≤ n && n < z + 10).map (n - ·)

/-- The value of a decimal digit; `none` for every other character. -/
def digitValue? (c : Char) : Option Nat :=
  if c.toNat < 1632 then
    if '0' ≤ c ∧ c ≤ '9' then some (c.toNat - 48) else none
  else digitOfCode? c.toNat

/-- Decimal digits of any script. -/
def isDecimal (c : Char) : Bool := (digitValue? c).isSome

end Ordo.Text
