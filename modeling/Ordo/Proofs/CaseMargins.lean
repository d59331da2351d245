import Mathlib.Algebra.Order.Field.Basic
import Mathlib.Data.Rat.Cast.Order
import Mathlib.Tactic.Linarith
import Mathlib.Tactic.NormNum
import Ordo.Proofs.Results
import Ordo.Recurrence.Master

namespace Ordo.Recurrence

/-!
# The margin between the cases

The order of a cost is compared with the exponent `log_b a` twice, each time strictly: whether it
is less by more than a hundredth, and whether it is less than a hundredth away.  An order that is
less by exactly a hundredth is neither, and comes under case 3.

* `CostOrder.exponent` — the exponent that a cost counts as, as a number;
* `Comparison.exact` — the comparison without rounding;
* `CostOrder.caseAt`, `CostOrder.caseAt_eq_one_iff`, `CostOrder.caseAt_eq_two_iff`,
  `CostOrder.caseAt_eq_three_iff` — the case by the exponent;
* `Comparison.exact_descends_iff` — when a larger exponent makes a smaller case.
-/

/-- The case, from the answers to both questions. -/
theorem Comparison.caseOf_of_answers {α : Type} {c : Comparison α} {o : CostOrder} {x : α}
    {below near : Bool} (hbelow : c.isBelow o x = .ok below) (hnear : c.isNear o x = .ok near) :
    c.caseOf o x = .ok (if below then .one else if near then .two else .three) := by
  unfold caseOf
  rw [hbelow, hnear]
  cases below <;> cases near <;> rfl

section Exact

variable {α : Type} [Field α] [LinearOrder α]

/-- The exponent that a cost counts as: a logarithm counts as a half, and after `n` as a tenth. -/
def CostOrder.exponent : CostOrder → α
  | whole k => k
  | logarithm => 1 / 2
  | linearithm => 11 / 10

/-- The comparison of numbers without rounding, with a margin of a hundredth. -/
def Comparison.exact (α : Type) [Field α] [LinearOrder α] : Comparison α where
  isBelow o x := .ok (o.exponent < x - 1 / 100)
  isNear o x := .ok (|o.exponent - x| < 1 / 100)

/-- The case of the comparison without rounding. -/
def CostOrder.caseAt (o : CostOrder) (x : α) : Case :=
  if o.exponent < x - 1 / 100 then .one
  else if |o.exponent - x| < 1 / 100 then .two
  else .three

theorem Comparison.caseOf_exact (o : CostOrder) (x : α) :
    (exact α).caseOf o x = .ok (o.caseAt x) := by
  rw [caseOf_of_answers (c := exact α) rfl rfl, CostOrder.caseAt]
  simp only [decide_eq_true_eq]

/-- What is decided for a cost whose order is read. -/
theorem Comparison.decide_exact {cost : String} {r : Option CostOrder}
    (h : CostOrder.read cost = .ok r) (x : α) :
    (exact α).decide cost x = .ok (r.elim .two fun o => o.caseAt x) := by
  unfold Comparison.decide
  rw [h]
  cases r with
  | none => rfl
  | some o => exact caseOf_exact o x

/-! ### The cases by the exponent -/

namespace CostOrder

variable [IsStrictOrderedRing α] {o : CostOrder} {x : α}

theorem caseAt_eq_one_iff : o.caseAt x = .one ↔ o.exponent + 1 / 100 < x := by
  unfold caseAt
  split_ifs with hbelow hnear
  · simpa using lt_sub_iff_add_lt.mp hbelow
  all_goals simpa using fun h => hbelow (lt_sub_iff_add_lt.mpr h)

theorem caseAt_eq_two_iff : o.caseAt x = .two ↔ |o.exponent - x| < 1 / 100 := by
  unfold caseAt
  split_ifs with hbelow hnear
  · have hfar : ¬|o.exponent - x| < 1 / 100 := by
      rw [abs_lt]
      rintro ⟨hlow, -⟩
      linarith
    simpa using hfar
  · simpa using hnear
  · simpa using hnear

/-- **Case 3 has a point beyond case 2**, where the order is less than the exponent by exactly the
    margin. -/
theorem caseAt_eq_three_iff :
    o.caseAt x = .three ↔ x ≤ o.exponent - 1 / 100 ∨ x = o.exponent + 1 / 100 := by
  have hcases : o.caseAt x = .three ↔ ¬o.caseAt x = .one ∧ ¬o.caseAt x = .two := by
    cases o.caseAt x <;> simp
  rw [hcases, caseAt_eq_one_iff, caseAt_eq_two_iff, abs_lt]
  constructor
  · rintro ⟨hone, htwo⟩
    rcases le_or_gt x (o.exponent - 1 / 100) with hlow | hhigh
    · exact .inl hlow
    · refine .inr (le_antisymm (not_lt.mp hone) (not_lt.mp fun hlt => htwo ⟨?_, ?_⟩)) <;> linarith
  · rintro (hlow | rfl)
    · exact ⟨fun h => by linarith, fun h => by linarith [h.2]⟩
    · exact ⟨fun h => by linarith, fun h => by linarith [h.1]⟩

/-- **Which pairs of exponents are out of order.**  The larger one has the larger case only if it is
    the point beyond case 2, and the smaller one lies within the margin. -/
theorem number_caseAt_le_iff {y : α} (hxy : x ≤ y) : (o.caseAt y).number ≤ (o.caseAt x).number
      ↔ ¬(y = o.exponent + 1 / 100 ∧ |o.exponent - x| < 1 / 100) := by
  rw [← caseAt_eq_two_iff]
  cases hx : o.caseAt x with
  | one =>
    have hy : o.caseAt y = .one := caseAt_eq_one_iff.mpr ((caseAt_eq_one_iff.mp hx).trans_le hxy)
    simp [hy]
  | two =>
    have hnear := abs_lt.mp (caseAt_eq_two_iff.mp hx)
    cases hy : o.caseAt y with
    | three =>
      have hpoint : y = o.exponent + 1 / 100 :=
        (caseAt_eq_three_iff.mp hy).resolve_left fun h => by linarith [hnear.2]
      simp only [hpoint, Case.number]
      simp
    | _ =>
      have hpoint : y ≠ o.exponent + 1 / 100 := by
        intro heq
        rw [caseAt_eq_three_iff.mpr (.inr heq)] at hy
        cases hy
      simp only [hpoint, Case.number]
      simp
  | three => cases o.caseAt y <;> simp [Case.number]

end CostOrder

end Exact

/-- **When a larger exponent makes a smaller case.**  For a cost whose order is read and exponents
    `x ≤ y`, the case at `y` is at most the case at `x`, unless `y` is larger than the order by
    exactly the margin and `x` is within the margin: then case 2 is followed by case 3. -/
theorem Comparison.exact_descends_iff {cost : String} {r : Option CostOrder}
    (hcost : CostOrder.read cost = .ok r) {x y : ℚ} (hxy : x ≤ y) :
    ∃ c d, (exact ℚ).decide cost x = .ok c ∧ (exact ℚ).decide cost y = .ok d
      ∧ (d.number ≤ c.number
        ↔ ¬∃ o, r = some o ∧ y = o.exponent + 1 / 100 ∧ |o.exponent - x| < 1 / 100) := by
  refine ⟨_, _, decide_exact hcost x, decide_exact hcost y, ?_⟩
  cases r with
  | none => simp
  | some o => simpa using CostOrder.number_caseAt_le_iff (o := o) hxy

/-- A linear cost: case 2 at the exponent 1 and case 3 at 1.01. -/
theorem Comparison.exact_descends_iff_linear :
    ∃ c d, (exact ℚ).decide "n" 1 = .ok c ∧ (exact ℚ).decide "n" (101 / 100) = .ok d
      ∧ ¬d.number ≤ c.number := by
  have hread : CostOrder.read "n" = .ok (some (.whole 1)) := rfl
  obtain ⟨c, d, hc, hd, hiff⟩ :=
    exact_descends_iff hread (show (1 : ℚ) ≤ 101 / 100 by norm_num)
  refine ⟨c, d, hc, hd, fun h => hiff.mp h ⟨_, rfl, ?_, ?_⟩⟩ <;> norm_num [CostOrder.exponent]

/-- Doubles have the same gap: between case 2 and case 1 there is case 3. -/
theorem Comparison.double_rises_and_falls :
    double.decide "n" 1.0 = .ok .two ∧ double.decide "n" 1.01 = .ok .three
      ∧ double.decide "n" 1.02 = .ok .one :=
  ⟨rfl, rfl, rfl⟩

end Ordo.Recurrence
