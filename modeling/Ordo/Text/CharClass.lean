namespace Ordo.Text

/-!
# Character classes by their bounds

A class of characters has as its bounds the increasing code points at which membership changes:
the class begins at the first of them, stops before the second, begins again at the third, and so
on.  It is written as the lengths of the runs between them, outside of the class and in it in turn.

* `boundsOf` — the bounds of a class, from the lengths of its runs;
* `countUpTo` — how many bounds lie at or below a code point, by bisection;
* `inBounds` — membership: an odd number of bounds lie at or below the code point.
-/

/-- The ends of runs of the given lengths, the first of which starts at `start`. -/
def runEnds (start : Nat) : List Nat → List Nat
  | [] => []
  | length :: lengths => (start + length) :: runEnds (start + length) lengths

/-- The bounds of a class, from the lengths of its runs. -/
def boundsOf (lengths : List Nat) : Array Nat := (runEnds 0 lengths).toArray

/-- Halves the part `lo .. hi` of increasing bounds, at most `fuel` times; the number of
    bounds that are at most `n`. -/
def countUpTo (bounds : Array Nat) (n : Nat) : Nat → Nat → Nat → Nat
  | 0, lo, _ => lo
  | fuel + 1, lo, hi =>
      if lo < hi then
        let mid := (lo + hi) / 2
        if bounds.getD mid 0 ≤ n then countUpTo bounds n fuel (mid + 1) hi
        else countUpTo bounds n fuel lo mid
      else lo

/-- Membership of a character in the class with the given bounds. -/
def inBounds (bounds : Array Nat) (c : Char) : Bool :=
  countUpTo bounds c.toNat bounds.size 0 bounds.size % 2 == 1

end Ordo.Text
