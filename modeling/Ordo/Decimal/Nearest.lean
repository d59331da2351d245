import Ordo.Decimal.Shortest

namespace Ordo.Decimal

/-!
# Nearest doubles

The double nearest to a fraction; of two that are equally near, the one whose last bit is zero.

* `nearestBits` — its bits;
* `nearest`, `ofNat?` — the double nearest to a fraction or a whole number.
-/

/-- A quotient rounded to the nearest whole number, and to the even one if two are. -/
def roundDiv (num den : Nat) : Nat :=
  let q := num / den
  let twice := 2 * (num % den)
  if twice < den then q
  else if den < twice then q + 1
  else if q % 2 = 0 then q else q + 1

/-- The bits of infinity, which exceed those of every finite double. -/
def infinityBits : Nat := 0x7FF0000000000000

/-- The exponent of the last bit of the double nearest to a positive fraction. -/
def lastBit (num den : Nat) : Int :=
  let e := (Nat.log2 num : Int) - Nat.log2 den
  let reached := (Ratio.scale2 1 e).le ⟨num, den⟩
  max (if reached then e - 52 else e - 53) (-1074)

/-- The bits of the double nearest to a fraction. -/
def nearestBits (num den : Nat) : Nat :=
  if num = 0 then 0
  else
    let e := lastBit num den
    let units := if 0 ≤ e then roundDiv num (den * Nat.pow 2 e.toNat)
      else roundDiv (num * Nat.pow 2 (-e).toNat) den
    min ((e + 1074).toNat * Nat.pow 2 52 + units) infinityBits

/-- The double nearest to a fraction. -/
def nearest (num den : Nat) : Float := Float.ofBits (UInt64.ofNat (nearestBits num den))

/-- The double nearest to a whole number, unless the number is beyond all doubles. -/
def ofNat? (n : Nat) : Option Float :=
  if nearestBits n 1 = infinityBits then none else some (nearest n 1)

end Ordo.Decimal
