import Ordo.Decimal.Shortest
import Ordo.Value.Basic

namespace Ordo.Value

/-!
# Equality of values

Values are equal if they stand for the same thing: numbers are compared by what they count,
whatever their kind, and a token is equal to its text.

* `same` — whether two values are equal;
* `isWhole` — whether a double is a given whole number.
-/

/-- Whether a double is exactly the given whole number. -/
def isWhole (f : Float) (i : Int) : Bool :=
  if i = 0 then f == 0.0
  else if i < 0 then f < 0.0 && isMagnitude (-f) i.natAbs
  else 0.0 < f && isMagnitude f i.natAbs
where
  isMagnitude (f : Float) (n : Nat) : Bool :=
    match Decimal.Binary.ofBits? f.toBits.toNat with
    | some b => b.value.num == n * b.value.den
    | Option.none => false

/-- Whether a value is the given whole number. -/
def isInt (i : Int) : Value → Bool
  | bool b => i == if b then 1 else 0
  | int j => i == j
  | float f => isWhole f i
  | _ => false

/-- Whether a value is the given double. -/
def isFloat (f : Float) : Value → Bool
  | bool b => isWhole f (if b then 1 else 0)
  | int i => isWhole f i
  | float g => f == g
  | _ => false

mutual

/-- Whether two values are equal.  A bare node is equal to none, not even to its like. -/
def same : Value → Value → Bool
  | none, none => true
  | bool b, v => v.isInt (if b then 1 else 0)
  | int i, v => v.isInt i
  | float f, v => v.isFloat f
  | str s, str t => s == t
  | str s, token _ t => s == t
  | token _ s, str t => s == t
  | token j s, token k t => j == k && s == t
  | tree r cs, tree q ds => same r q && sameAll cs ds
  | list xs, list ys => sameAll xs ys
  | tuple xs, tuple ys => sameAll xs ys
  | dict es, dict fs => es.length == fs.length && sameEntries es fs
  | node k fs, node l gs => k == l && k != .bare && sameAll fs gs
  | _, _ => false

/-- Whether two lists of values are equal, item by item. -/
def sameAll : List Value → List Value → Bool
  | [], [] => true
  | v :: vs, w :: ws => same v w && sameAll vs ws
  | _, _ => false

/-- Whether every one of the entries is found among other entries. -/
def sameEntries : List (String × Value) → List (String × Value) → Bool
  | [], _ => true
  | (key, v) :: es, fs =>
      (match fs.lookup key with
        | some w => same v w
        | Option.none => false) && sameEntries es fs

end

end Ordo.Value
