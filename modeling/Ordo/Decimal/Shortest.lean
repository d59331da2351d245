namespace Ordo.Decimal

/-!
# Shortest decimals

A double is written with the fewest decimal digits that read back as the same double; among
those, the digits nearest to its value.

* `Binary`, `Binary.ofBits?` — a positive finite double as `mantissa * 2 ^ exponent`;
* `Binary.shortest` — its shortest digits with their decimal point;
* `Layout`, `write` — the text of a double.

Digits are looked for on finer and finer decimal grids.  On each grid only the two neighbours
of the value can be the nearest, and a grid point reads back as the value exactly when it lies
between the midpoints to the neighbouring doubles.
-/

/-- A positive number `mantissa * 2 ^ exponent`. -/
structure Binary where
  mantissa : Nat
  exponent : Int
  /-- Whether the double below is at half the usual distance. -/
  narrowBelow : Bool

/-- A non-negative fraction. -/
structure Ratio where
  num : Nat
  den : Nat

namespace Ratio

/-- `n * 2 ^ e`. -/
def scale2 (n : Nat) (e : Int) : Ratio :=
  if 0 ≤ e then ⟨n * Nat.pow 2 e.toNat, 1⟩ else ⟨n, Nat.pow 2 (-e).toNat⟩

/-- `n * 10 ^ e`. -/
def scale10 (n : Nat) (e : Int) : Ratio :=
  if 0 ≤ e then ⟨n * Nat.pow 10 e.toNat, 1⟩ else ⟨n, Nat.pow 10 (-e).toNat⟩

/-- The order of fractions. -/
def le (a b : Ratio) : Bool := a.num * b.den ≤ b.num * a.den

/-- The strict order of fractions. -/
def lt (a b : Ratio) : Bool := a.num * b.den < b.num * a.den

/-- The whole part of a quotient of fractions. -/
def floorDiv (a b : Ratio) : Nat := (a.num * b.den) / (a.den * b.num)

/-- The distance between fractions. -/
def dist (a b : Ratio) : Ratio :=
  let x := a.num * b.den
  let y := b.num * a.den
  ⟨if x ≤ y then y - x else x - y, a.den * b.den⟩

end Ratio

namespace Binary

/-- A positive finite double, from its bits. -/
def ofBits? (bits : Nat) : Option Binary :=
  let field : Nat := bits / Nat.pow 2 52 % Nat.pow 2 11
  let fraction : Nat := bits % Nat.pow 2 52
  if field = 2047 then none
  else if field = 0 then
    if fraction = 0 then none else some ⟨fraction, -1074, false⟩
  else some ⟨Nat.pow 2 52 + fraction, Int.ofNat field - 1075, fraction = 0 && field > 1⟩

/-- The value itself. -/
def value (b : Binary) : Ratio := Ratio.scale2 b.mantissa b.exponent

/-- The midpoint to the double below. -/
def lower (b : Binary) : Ratio :=
  if b.narrowBelow then Ratio.scale2 (4 * b.mantissa - 1) (b.exponent - 2)
  else Ratio.scale2 (2 * b.mantissa - 1) (b.exponent - 1)

/-- The midpoint to the double above. -/
def upper (b : Binary) : Ratio := Ratio.scale2 (2 * b.mantissa + 1) (b.exponent - 1)

/-- Whether a number reads back as the value.  The midpoints do if the mantissa is even. -/
def readsBack (b : Binary) (r : Ratio) : Bool :=
  if b.mantissa % 2 = 0 then b.lower.le r && r.le b.upper
  else b.lower.lt r && r.lt b.upper

/-- Raises an estimate `e` until the value is below `10 ^ e`, at most `fuel` times. -/
def raise (v : Ratio) : Nat → Int → Int
  | 0, e => e
  | fuel + 1, e => if (Ratio.scale10 1 e).le v then raise v fuel (e + 1) else e

/-- The decimal exponent: the least `e` with the value below `10 ^ e`. -/
def magnitude (b : Binary) : Int :=
  let bits := (Nat.log2 b.mantissa : Int) + b.exponent
  raise b.value 4 (bits * 30103 / 100000 - 1)

/-- The digits on the grid of `n` digits that read back as the value. -/
def onGrid (b : Binary) (e : Int) (n : Nat) : Option Nat :=
  let unit := e - n
  let below := b.value.floorDiv (Ratio.scale10 1 unit)
  let above := below + 1
  let lowHit := b.readsBack (Ratio.scale10 below unit)
  let highHit := b.readsBack (Ratio.scale10 above unit)
  if lowHit && highHit then
    let toLow := (Ratio.scale10 below unit).dist b.value
    let toHigh := (Ratio.scale10 above unit).dist b.value
    if toLow.lt toHigh then some below
    else if toHigh.lt toLow then some above
    else if below % 2 = 0 then some below else some above
  else if lowHit then some below
  else if highHit then some above
  else none

/-- The shortest digits, trying `n` digits and up; `fuel` grids are tried.  The result is a
    number of digits and the exponent of the unit they count. -/
def search (b : Binary) (e : Int) : Nat → Nat → Nat × Int
  | 0, n => (b.value.floorDiv (Ratio.scale10 1 (e - n)), e - n)
  | fuel + 1, n =>
      match b.onGrid e n with
      | some d => (d, e - n)
      | none => search b e fuel (n + 1)

/-- The shortest digits `d` and unit exponent `u`: the value is written `d * 10 ^ u`. -/
def shortest (b : Binary) : Nat × Int := b.search b.magnitude 17 1

end Binary

/-- Digits without trailing zeros, and the unit they then count; at most `fuel` zeros. -/
def dropZeros : Nat → Nat → Int → Nat × Int
  | 0, d, u => (d, u)
  | fuel + 1, d, u => if d ≠ 0 ∧ d % 10 = 0 then dropZeros fuel (d / 10) (u + 1) else (d, u)

/-- How a number is laid out.  Numbers are written in full while the exponent of their first
    digit lies from `least` up to but not including `most`. -/
structure Layout where
  least : Int
  most : Int
  /-- The fewest digits of a written exponent. -/
  exponentWidth : Nat

/-- Digits and point: `d * 10 ^ u` for `d` without trailing zeros. -/
def Layout.place (l : Layout) (d : Nat) (u : Int) : String :=
  let digits := (Nat.repr d).toList
  let count : Int := digits.length
  let exponent := u + count - 1
  if l.least ≤ exponent ∧ exponent < l.most then
    if 0 ≤ u then String.ofList (digits ++ List.replicate u.toNat '0') ++ ".0"
    else if 0 ≤ exponent then
      let whole := (exponent + 1).toNat
      String.ofList (digits.take whole) ++ "." ++ String.ofList (digits.drop whole)
    else "0." ++ String.ofList (List.replicate (-exponent - 1).toNat '0' ++ digits)
  else
    let mantissa := match digits with
      | [] => ""
      | [c] => String.singleton c
      | c :: rest => String.singleton c ++ "." ++ String.ofList rest
    let size := (Nat.repr exponent.natAbs).toList
    let padded := List.replicate (l.exponentWidth - size.length) '0' ++ size
    mantissa ++ "e" ++ (if exponent < 0 then "-" else "+") ++ String.ofList padded

/-- Numbers from `10 ^ -4` up to `10 ^ 16` are written in full, with at least one digit after
    the point; others have an exponent of at least two digits. -/
def plainLayout : Layout := ⟨-4, 16, 2⟩

/-- The text of a double. -/
def write (f : Float) : String :=
  if f.isNaN then "nan"
  else
    let bits := f.toBits.toNat
    let sign := if bits ≥ Nat.pow 2 63 then "-" else ""
    if f.isInf then sign ++ "inf"
    else match Binary.ofBits? bits with
      | none => sign ++ "0.0"
      | some b =>
          let (d, u) := b.shortest
          let (d, u) := dropZeros 400 d u
          sign ++ plainLayout.place d u

end Ordo.Decimal
