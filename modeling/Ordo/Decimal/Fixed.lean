import Ordo.Decimal.Nearest

namespace Ordo.Decimal

/-!
# Two decimal places

Numbers rounded to hundredths; a half goes to the even neighbour.

* `hundredths` — the rounded number of hundredths;
* `twoPlaces` — their text;
* `roundTwo` — the double nearest to them.
-/

/-- The number of hundredths in a non-negative double, rounded. -/
def hundredths (f : Float) : Nat :=
  match Binary.ofBits? (f.toBits.toNat % Nat.pow 2 63) with
  | some b => roundDiv (100 * b.value.num) b.value.den
  | none => 0

/-- The two digits of a number below a hundred. -/
def twoDigits (n : Nat) : String := Nat.repr (n / 10 % 10) ++ Nat.repr (n % 10)

/-- A non-negative double with two decimal places. -/
def twoPlaces (f : Float) : String :=
  let h := hundredths f
  Nat.repr (h / 100) ++ "." ++ twoDigits (h % 100)

/-- A non-negative double with two decimal places, which are left out if both are zero. -/
def twoPlacesBrief (f : Float) : String :=
  let h := hundredths f
  if h % 100 = 0 then Nat.repr (h / 100) else twoPlaces f

/-- A non-negative double rounded to hundredths. -/
def roundTwo (f : Float) : Float := nearest (hundredths f) 100

end Ordo.Decimal
