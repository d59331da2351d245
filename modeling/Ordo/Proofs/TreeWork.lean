import Mathlib.Algebra.Order.Field.GeomSum
import Mathlib.Analysis.Asymptotics.SpecificAsymptotics
import Mathlib.Analysis.Asymptotics.Theta
import Mathlib.Analysis.SpecialFunctions.Log.Base
import Mathlib.Analysis.SpecificLimits.Normed
import Ordo.Proofs.Solvers

namespace Ordo

/-!
# The work in a recursion tree

A recursion tree of a linear cost is said to take `O(n log n)`, whatever the recurrence is.  Its
levels say something else: a level at depth `i` has `a ^ i` nodes of size `n / b ^ i`, and their
sum over all levels depends on how `a` compares with `b`.

* `Tree.work` — the work of all levels, added up;
* `Tree.isBigO_geometric_iff`, `Tree.isBigO_of_geometric_iff` — how a geometric sum compares with
  its number of terms;
* `Tree.isBigO_work_iff`, `Tree.isTheta_work_iff` — when the work is `n log n`;
* `Solver.linearithmic_conclusion` — what is concluded, and when it holds.
-/

open Asymptotics Filter

namespace Recurrence.Tree

/-! ### Levels added up -/

/-- The work on a level for a problem of size `n`, when each problem costs its size. -/
def Level.work (l : Level) (n : ℕ) : ℚ := l.nodes * (n / l.divisor)

/-- The work of the whole tree, down to the depth at which problems have size one. -/
def work (d : Divide) (n : ℕ) : ℚ :=
  ∑ i ∈ Finset.range (Nat.log d.factor n + 1), (level d i).work n

example : work ⟨2, 2, "n"⟩ 8 = 4 * 8 := by decide +kernel

/-- The first terms of a geometric series. -/
noncomputable def geometric (r : ℝ) (k : ℕ) : ℝ := ∑ i ∈ Finset.range (k + 1), r ^ i

/-- The work is a geometric sum: from one level to the next it changes by the same factor. -/
theorem work_eq_geometric (d : Divide) (n : ℕ) :
    (work d n : ℝ) = n * geometric (d.branches / d.factor) (Nat.log d.factor n) := by
  rw [work, geometric, Finset.mul_sum, Rat.cast_sum]
  apply Finset.sum_congr rfl
  intro i _
  simp only [Level.work, level, Nat.pow_eq]
  push_cast
  rw [div_pow]
  ring

/-! ### Geometric sums -/

section Geometric

variable {r : ℝ}

theorem isBigO_succ : (fun k : ℕ => (k : ℝ) + 1) =O[atTop] fun k : ℕ => (k : ℝ) := by
  apply IsBigO.of_bound 2
  filter_upwards [eventually_ge_atTop 1] with k hk
  have hk : (1 : ℝ) ≤ k := by exact_mod_cast hk
  rw [Real.norm_of_nonneg (by linarith), Real.norm_of_nonneg (by linarith)]
  linarith

theorem geometric_nonneg (hr : 0 ≤ r) (k : ℕ) : 0 ≤ geometric r k :=
  Finset.sum_nonneg fun i _ => pow_nonneg hr i

theorem geometric_le_succ (hr : 0 ≤ r) (hle : r ≤ 1) (k : ℕ) : geometric r k ≤ k + 1 := by
  calc geometric r k ≤ ∑ _i ∈ Finset.range (k + 1), (1 : ℝ) :=
        Finset.sum_le_sum fun i _ => pow_le_one₀ hr hle
    _ = k + 1 := by simp

theorem succ_le_geometric (hle : 1 ≤ r) (k : ℕ) : (k : ℝ) + 1 ≤ geometric r k := by
  calc (k : ℝ) + 1 = ∑ _i ∈ Finset.range (k + 1), (1 : ℝ) := by simp
    _ ≤ geometric r k := Finset.sum_le_sum fun i _ => one_le_pow₀ hle

theorem geometric_le_of_lt_one (hr : 0 ≤ r) (hlt : r < 1) (k : ℕ) :
    geometric r k ≤ 1 / (1 - r) := by
  have hbound := geom_sum_Ico_le_of_lt_one hr hlt (m := 0) (n := k + 1)
  rwa [Nat.Ico_zero_eq_range, pow_zero] at hbound

theorem pow_le_geometric (hr : 0 ≤ r) (k : ℕ) : r ^ k ≤ geometric r k :=
  Finset.single_le_sum (fun i _ => pow_nonneg hr i) (Finset.self_mem_range_succ k)

/-- A geometric sum grows at most as fast as its number of terms if the terms do not grow. -/
theorem isBigO_geometric_iff (hr : 0 ≤ r) :
    geometric r =O[atTop] (fun k : ℕ => (k : ℝ)) ↔ r ≤ 1 := by
  constructor
  · intro h
    by_contra! hlt
    -- the last term alone grows faster
    have hlast : (fun k : ℕ => r ^ k) =O[atTop] geometric r := by
      apply IsBigO.of_norm_le
      intro k
      rw [Real.norm_of_nonneg (pow_nonneg hr k)]
      exact pow_le_geometric hr k
    have hsmall : (fun k : ℕ => r ^ k) =o[atTop] fun k : ℕ => r ^ k :=
      (hlast.trans h).trans_isLittleO (isLittleO_coe_const_pow_of_one_lt hlt)
    refine isLittleO_irrefl (Frequently.of_forall fun k => ?_) hsmall
    exact pow_ne_zero k (by linarith)
  · intro hle
    refine IsBigO.trans (IsBigO.of_norm_le fun k => ?_) isBigO_succ
    rw [Real.norm_of_nonneg (geometric_nonneg hr k)]
    exact geometric_le_succ hr hle k

/-- A geometric sum grows at least as fast as its number of terms if the terms do not shrink. -/
theorem isBigO_of_geometric_iff (hr : 0 ≤ r) :
    (fun k : ℕ => (k : ℝ)) =O[atTop] geometric r ↔ 1 ≤ r := by
  constructor
  · intro h
    by_contra! hlt
    -- the sum is bounded, the number of terms is not
    have hbounded : geometric r =O[atTop] fun _ => (1 : ℝ) := by
      rw [isBigO_one_nat_atTop_iff]
      refine ⟨1 / (1 - r), fun k => ?_⟩
      rw [Real.norm_of_nonneg (geometric_nonneg hr k)]
      exact geometric_le_of_lt_one hr hlt k
    obtain ⟨C, hC⟩ := isBigO_one_nat_atTop_iff.mp (h.trans hbounded)
    obtain ⟨k, hk⟩ := exists_nat_gt C
    have hle := hC k
    rw [Real.norm_natCast] at hle
    linarith
  · intro hle
    apply IsBigO.of_norm_le
    intro k
    rw [Real.norm_natCast]
    linarith [succ_le_geometric hle k]

end Geometric

/-! ### Depth and size -/

section Depth

variable {b : ℕ}

theorem tendsto_log_atTop (hb : 2 ≤ b) : Tendsto (Nat.log b) atTop atTop := by
  apply tendsto_atTop_atTop_of_monotone fun _ _ => Nat.log_mono_right
  intro k
  exact ⟨b ^ k, by rw [Nat.log_pow hb]⟩

/-- The depth of the tree is a logarithm. -/
theorem isTheta_log (hb : 2 ≤ b) :
    (fun n : ℕ => (Nat.log b n : ℝ)) =Θ[atTop] fun n : ℕ => Real.log n := by
  have hbase : (1 : ℝ) < b := by exact_mod_cast hb
  have hgrows : Tendsto (fun n : ℕ => Real.logb b n) atTop atTop :=
    (Real.tendsto_logb_atTop hbase).comp tendsto_natCast_atTop_atTop
  have hequivalent : (fun x : ℝ => ((⌊x⌋₊ : ℕ) : ℝ)) ~[atTop] fun x => x := isEquivalent_nat_floor
  have hfloor : (fun n : ℕ => ((⌊Real.logb b n⌋₊ : ℕ) : ℝ)) =Θ[atTop]
      fun n : ℕ => Real.logb b n :=
    (hequivalent.comp_tendsto hgrows).isTheta
  simp only [Real.natFloor_logb_natCast] at hfloor
  refine hfloor.trans ?_
  simp only [Real.logb, div_eq_inv_mul]
  exact (isTheta_const_mul_left (inv_ne_zero (Real.log_pos hbase).ne')).mpr (isTheta_refl _ _)

variable {f g : ℕ → ℝ}

/-- Functions of the depth compare as they do along the powers of the divisor. -/
theorem isBigO_comp_log_iff (hb : 2 ≤ b) :
    (fun n => f (Nat.log b n)) =O[atTop] (fun n => g (Nat.log b n)) ↔ f =O[atTop] g := by
  constructor
  · intro h
    have hpow : Tendsto (fun k => b ^ k) atTop atTop := tendsto_pow_atTop_atTop_of_one_lt hb
    have hcomp := h.comp_tendsto hpow
    simpa only [Function.comp_def, Nat.log_pow hb] using hcomp
  · exact fun h => h.comp_tendsto (tendsto_log_atTop hb)

/-- A common factor `n` is cancelled. -/
theorem isBigO_size_mul_iff :
    (fun n : ℕ => n * f n) =O[atTop] (fun n : ℕ => n * g n) ↔ f =O[atTop] g := by
  have hne : ∀ᶠ n : ℕ in atTop, (n : ℝ) ≠ 0 := by
    filter_upwards [eventually_ne_atTop 0] with n hn
    exact_mod_cast hn
  rw [isBigO_mul_iff_isBigO_div hne]
  apply isBigO_congr (EventuallyEq.refl _ _)
  filter_upwards [hne] with n hn
  exact mul_div_cancel_left₀ _ hn

end Depth

/-! ### The work -/

section Work

variable {d : Divide}

/-- **The work is at most `n log n`** if there are not more calls than parts. -/
theorem isBigO_work_iff (hfactor : 2 ≤ d.factor) :
    (fun n => (work d n : ℝ)) =O[atTop] (fun n : ℕ => n * Real.log n)
      ↔ d.branches ≤ d.factor := by
  have hpos : (0 : ℝ) < d.factor := by exact_mod_cast Nat.lt_of_lt_of_le Nat.two_pos hfactor
  simp only [work_eq_geometric, isBigO_size_mul_iff]
  rw [← (isTheta_log hfactor).isBigO_congr_right, isBigO_comp_log_iff hfactor,
    isBigO_geometric_iff (by positivity), div_le_one hpos, Nat.cast_le]

/-- The work is at least `n log n` if there are not fewer calls than parts. -/
theorem isBigO_of_work_iff (hfactor : 2 ≤ d.factor) :
    (fun n : ℕ => n * Real.log n) =O[atTop] (fun n => (work d n : ℝ))
      ↔ d.factor ≤ d.branches := by
  have hpos : (0 : ℝ) < d.factor := by exact_mod_cast Nat.lt_of_lt_of_le Nat.two_pos hfactor
  simp only [work_eq_geometric, isBigO_size_mul_iff]
  rw [← (isTheta_log hfactor).isBigO_congr_left, isBigO_comp_log_iff hfactor,
    isBigO_of_geometric_iff (by positivity), one_le_div hpos, Nat.cast_le]

/-- **The work is `n log n`** if there are as many calls as parts. -/
theorem isTheta_work_iff (hfactor : 2 ≤ d.factor) :
    (fun n => (work d n : ℝ)) =Θ[atTop] (fun n : ℕ => n * Real.log n)
      ↔ d.branches = d.factor := by
  rw [IsTheta, isBigO_work_iff hfactor, isBigO_of_work_iff hfactor]
  omega

end Work

end Recurrence.Tree

/-! ### What is concluded -/

namespace Solver

open Recurrence

/-- An answer whose total work ends with an equation to the given order. -/
def Concludes (answer : Outcome Value) (order : String) : Prop :=
  ∃ v total, answer = .ok v ∧ v.get? "total_work" = some (.str total)
    ∧ (" = " ++ order).toList <:+ total.toList

/-- For a linear cost, `O(n log n)` is concluded whenever the tree can be written. -/
theorem concludes_recursionTree_iff {a b : ℕ} (s : Spacing) :
    Concludes (run .recursionTree [.str (s.branching a b "n")]) "O(n log n)"
      ↔ a ^ 3 < 10 ^ Decimal.digitLimit ∧ b ^ 3 < 10 ^ Decimal.digitLimit := by
  have hrun : ∀ {v : Value}, run .recursionTree [.str (s.branching a b "n")] = .ok v
      ↔ Tree.describe ⟨a, b, "n"⟩ = .ok v := by
    intro v
    rw [← Tree.report_branching_iff s isCost_linear, run_recursionTree, ofEquation_eq_ok_iff]
  rw [← Tree.exists_describe_iff (d := ⟨a, b, "n"⟩)]
  constructor
  · rintro ⟨v, total, hv, -, -⟩
    exact ⟨v, hrun.mp hv⟩
  · rintro ⟨v, hv⟩
    obtain ⟨-, -, -, -, htotal⟩ := Tree.get?_of_describe hv
    have hend : Tree.totalWork ⟨a, b, "n"⟩
        = ("O(n) por nivel × " ++ Tree.depthText ⟨a, b, "n"⟩ ++ " niveles")
          ++ (" = " ++ "O(n log n)") := by
      rw [Tree.totalWork, if_pos rfl, @String.append_assoc _ " niveles"]
      rfl
    rw [hend] at htotal
    exact ⟨v, _, hrun.mpr hv, htotal, _, String.toList_append.symm⟩

/-- **The conclusion does not depend on the recurrence.**  Recursion trees of a linear cost are
    said to take `O(n log n)` for every coefficient `a` and divisor `b`, as long as the numbers
    on the levels can be written.  By the work on its own levels a tree takes at most that if
    `a ≤ b`, and exactly that only if `a = b`. -/
theorem linearithmic_conclusion {a b : ℕ} (hb : 2 ≤ b) (s : Spacing) :
    (Concludes (run .recursionTree [.str (s.branching a b "n")]) "O(n log n)"
      ↔ a ^ 3 < 10 ^ Decimal.digitLimit ∧ b ^ 3 < 10 ^ Decimal.digitLimit)
    ∧ ((fun n => (Tree.work ⟨a, b, "n"⟩ n : ℝ)) =O[atTop] (fun n : ℕ => n * Real.log n) ↔ a ≤ b)
    ∧ ((fun n => (Tree.work ⟨a, b, "n"⟩ n : ℝ)) =Θ[atTop] (fun n : ℕ => n * Real.log n)
        ↔ a = b) :=
  ⟨concludes_recursionTree_iff s, Tree.isBigO_work_iff hb, Tree.isTheta_work_iff hb⟩

/-- Three calls on halves are said to take `O(n log n)`, but take more. -/
theorem linearithmic_conclusion_three_halves :
    Concludes (run .recursionTree [.str "T(n) = 3T(n/2) + O(n)"]) "O(n log n)"
    ∧ ¬(fun n => (Tree.work ⟨3, 2, "n"⟩ n : ℝ)) =O[atTop] (fun n : ℕ => n * Real.log n) := by
  obtain ⟨hconcludes, hbound, -⟩ :=
    linearithmic_conclusion (a := 3) (Nat.le_refl 2) Spacing.plain
  rw [show Spacing.branching _ 3 2 "n" = "T(n) = 3T(n/2) + O(n)" by decide +kernel] at hconcludes
  have hshort : ∀ {n : ℕ}, n < 10 ^ 1 → n ^ 3 < 10 ^ Decimal.digitLimit :=
    cube_lt_of_lt (by decide)
  exact ⟨hconcludes.mpr ⟨hshort (by decide), hshort (by decide)⟩, by simp [hbound]⟩

end Solver

end Ordo
