import Ordo.Proofs.MasterCases
import Ordo.Proofs.Stalling

namespace Ordo.Recurrence

open Text Text.Template
open Decimal (digitLimit ofDigits)
open Double (value?)

/-!
# When the master theorem fails

A recurrence that is found in a text is solved unless one of its numbers has too many digits, is
zero or is a base of one, or its cost has an exponent that is too long or beyond all doubles.

* `worth`, `IsLong` — what digits stand for, and digits that are too many to be read;
* `Divide.found?` — the digits and the cost of the recurrence in a text;
* `IsTameAt`, `logBaseBy_cases` — logarithms that lead to an exponent, and the exponent;
* `CostOrder.Raises`, `decide_cases` — costs that cannot be compared with an exponent;
* `Master.Raises`, `Master.fails_iff` — why and when there is no answer.
-/

open List String

/-! ### Numbers -/

/-- The number that digits of any script stand for. -/
def worth (cs : List Char) : Nat := ofDigits (cs.filterMap digitValue?)

/-- Digits that are too many to be read. -/
def IsLong (cs : List Char) : Prop := digitLimit < cs.length

/-- Digits are read as what they stand for, unless they are too many. -/
theorem number_cases {cs : List Char} (h : digits.Takes cs) :
    IsLong cs ∧ (∃ e, number cs = .error (.numeral e)) ∨
      ¬IsLong cs ∧ number cs = .ok (worth cs) := by
  have hok := number_eq_ok_iff h (n := worth cs)
  by_cases hlong : IsLong cs
  · refine .inl ⟨hlong, ?_⟩
    cases hread : Decimal.readWhole (ofList cs) with
    | error e => exact ⟨e, by rw [number, hread]⟩
    | ok i =>
      have hshort := ((number_eq_ok_iff h).mp (by rw [number, hread])).1
      exact absurd hlong (Nat.not_lt.mpr hshort)
  · exact .inr ⟨hlong, hok.mpr ⟨Nat.not_lt.mp hlong, rfl⟩⟩

/-- The digits of `a` and `b` and the cost of the recurrence that is found in a text; where `a` is
    not written, it is one. -/
def Divide.found? (s : String) : Option (List Char × List Char × String) :=
  match forms.findSome? fun t => t.search (trim s.toList) with
  | some [a, b, f] => some (a, b, ofList (trim f))
  | some [b, f] => some (['1'], b, ofList (trim f))
  | _ => none

/-- What is found in a text is read, if its numbers can be. -/
theorem Divide.read_cases (s : String) : found? s = none ∧ Divide.read s = .ok none ∨
    ∃ a b cost, found? s = some (a, b, cost) ∧ digits.Takes a ∧ digits.Takes b
      ∧ Divide.read s = do return some ⟨← number a, ← number b, cost⟩ := by
  unfold Divide.read found?
  simp only
  cases hruns : forms.findSome? fun t => t.search (trim s.toList) with
  | none => exact .inl ⟨rfl, rfl⟩
  | some runs =>
    obtain ⟨t, ht, hsearch⟩ := exists_of_findSome?_eq_some hruns
    have htakes := takes_of_search hsearch
    have hone : digits.Takes ['1'] :=
      ⟨forall_mem_singleton.mpr rfl, Nat.le_refl 1, by rintro _ ⟨⟩⟩
    have hshape : (∃ f, t.filter Piece.kept = [digits, digits, f])
        ∨ ∃ f, t.filter Piece.kept = [digits, f] := by
      simp only [forms, mem_cons, not_mem_nil, or_false] at ht
      rcases ht with rfl | rfl | rfl | rfl
      exacts [.inl ⟨brief, rfl⟩, .inr ⟨brief, rfl⟩, .inl ⟨anything, rfl⟩, .inr ⟨anything, rfl⟩]
    rcases hshape with ⟨f, hf⟩ | ⟨f, hf⟩ <;> rw [hf] at htakes
    · obtain _ | ⟨ha, _ | ⟨hb, _ | ⟨-, _ | _⟩⟩⟩ := htakes
      refine .inr ⟨_, _, _, rfl, ha, hb, ?_⟩
      simp only [ofFit, ofRuns, bind_assoc, pure_bind]
    · obtain _ | ⟨hb, _ | ⟨-, _ | _⟩⟩ := htakes
      refine .inr ⟨_, _, _, rfl, hone, hb, ?_⟩
      simp only [ofFit, ofRuns, bind_assoc, pure_bind]

/-! ### Exponents -/

attribute [local instance] Double.atLeastTwo_two in
/-- The logarithm of a number above one is finite and positive, and far from both ends of the
    doubles. -/
def IsTameAt (log : Float → Float) (n : Nat) : Prop :=
  n ≤ 1 ∨ ∃ x p, naturalLog log n = .ok x ∧ value? x = some p ∧ 1 / 4 ≤ p ∧ p < 2 ^ 64

variable {log : Float → Float}

/-- An accurate logarithm is tame. -/
theorem isTameAt_of_isAccurateLog (hlog : Double.IsAccurateLog log) {n : Nat}
    (hsize : n.log2 < 1000) : IsTameAt log n := by
  by_cases hn : n ≤ 1
  · exact .inl hn
  · obtain ⟨x, l, hx, hl, herror⟩ := Double.value?_naturalLog hlog (by omega : 1 ≤ n) hsize
    have hlow := Double.half_lt_log (by omega : 2 ≤ n)
    have hhigh := (Double.logb_mem (by omega : 1 ≤ n) (Nat.le_refl 2) hsize).2
    rw [Real.logb, Nat.cast_ofNat, div_le_iff₀ (Real.log_pos one_lt_two)] at hhigh
    obtain ⟨hleast, hmost⟩ := abs_le.mp herror
    refine .inr ⟨x, l, hx, hl, by linarith, by linarith [Real.log_two_lt_d9]⟩

/-- The logarithm of a number, which is nothing at one. -/
theorem IsTameAt.exists_naturalLog {n : Nat} (h : IsTameAt log n) (hn : 1 ≤ n) :
    ∃ x p, naturalLog log n = .ok x ∧ value? x = some p ∧ 0 ≤ p ∧ p < 2 ^ 64
      ∧ (2 ≤ n → 1 / 4 ≤ p) := by
  rcases h with hone | ⟨x, p, hx, hp, hlow, hhigh⟩
  · obtain rfl : n = 1 := by omega
    exact ⟨0.0, 0, rfl, rfl, le_rfl, by positivity, by simp⟩
  · exact ⟨x, p, hx, hp, by linarith, hhigh, fun _ => hlow⟩

/-- The logarithm of a number to a base, and why there is none. -/
theorem logBaseBy_cases {a b : Nat} (ha : IsTameAt log a) (hb : IsTameAt log b) :
    (a = 0 ∨ b = 0) ∧ logBaseBy log b a = .error .logOfZero
    ∨ (1 ≤ a ∧ b = 1) ∧ logBaseBy log b a = .error .baseOne
    ∨ (1 ≤ a ∧ 2 ≤ b) ∧ ∃ x p, logBaseBy log b a = .ok x ∧ value? x = some p ∧ |p| < 2 ^ 70 := by
  rcases a.eq_zero_or_pos with rfl | hapos
  · exact .inl ⟨.inl rfl, rfl⟩
  obtain ⟨x, p, hx, hp, hpos, hhigh, -⟩ := ha.exists_naturalLog hapos
  obtain rfl | rfl | htwo : b = 0 ∨ b = 1 ∨ 2 ≤ b := by omega
  · exact .inl ⟨.inr rfl, by rw [logBaseBy, hx]; rfl⟩
  · exact .inr (.inl ⟨⟨hapos, rfl⟩, by rw [logBaseBy, hx]; rfl⟩)
  obtain ⟨y, q, hy, hq, -, -, hlow⟩ := hb.exists_naturalLog (by omega)
  have hquarter := hlow htwo
  have hnonzero : (y == 0.0) = false := by
    rw [Bool.eq_false_iff, Ne, Double.beq_iff hq (show value? 0.0 = some 0 from rfl)]
    linarith
  have hquotient : |p / q| ≤ 2 ^ 66 := by
    rw [abs_of_nonneg (by positivity), div_le_iff₀ (by linarith)]
    linarith
  obtain ⟨r, hr, herror⟩ := Double.value?_div hp hq (by linarith)
    (Double.lt_limit 67 (by decide) (hquotient.trans_lt (by norm_num)))
  refine .inr (.inr ⟨⟨hapos, htwo⟩, x / y, r, ?_, hr, ?_⟩)
  · simp only [logBaseBy, hx, hy, bind, Except.bind, hnonzero, Bool.false_eq_true, if_false]
  · have hleast := Double.least_le 1 (by decide) (by norm_num : (1 / 2 ^ 1 : ℝ) ≤ 1)
    linarith [abs_sub_abs_le_abs_sub r (p / q)]

/-! ### Costs -/

/-- Why a cost that is not in the table cannot be compared: the digits of its exponent are too
    many, or it is beyond all doubles. -/
inductive CostOrder.Raises (cost : String) : SolverError → Prop
  | long {k : List Char} {e : Decimal.NumeralError}
      (htable : table.lookup (ofList (lower cost.toList)) = none)
      (hk : power.search cost.toList = some [k]) (hlong : IsLong k) : Raises cost (.numeral e)
  | large {k : List Char} (htable : table.lookup (ofList (lower cost.toList)) = none)
      (hk : power.search cost.toList = some [k]) (hlarge : Decimal.ofNat? (worth k) = none) :
      Raises cost .tooLarge

variable {x : Float} {p : ℝ} {s : String}

/-- Orders without a double are beyond all exponents. -/
theorem isBelow_of_toFloat_eq_error {o : CostOrder} {e : SolverError} (h : o.toFloat = .error e)
    (hx : value? x = some p) (hp : |p| < 2 ^ 70) :
    e = .tooLarge ∧ o.isBelow (x - margin) = false := by
  obtain ⟨k, rfl, hk⟩ : ∃ k, o = .whole k ∧ 1000 ≤ k.log2 := by
    by_contra hsmall
    have ho : o.IsSmall := by
      cases o with
      | whole k => exact Nat.lt_of_not_le fun hk => hsmall ⟨k, rfl, hk⟩
      | _ => trivial
    obtain ⟨y, -, hy, -⟩ := CostOrder.value?_toFloat ho
    cases h.symm.trans hy
  obtain ⟨q, hq, herror⟩ := value?_margin
  obtain ⟨hlow, hhigh⟩ := abs_le.mp herror
  obtain ⟨hplow, hphigh⟩ := abs_lt.mp hp
  have hpq : |p - q| < 2 ^ 71 := abs_lt.mpr ⟨by linarith, by linarith⟩
  obtain ⟨r, hr, hrerror⟩ := Double.value?_sub hx hq (Double.lt_limit 71 (by decide) hpq)
  constructor
  · rw [CostOrder.toFloat] at h
    split at h <;> cases h
    rfl
  · rw [Bool.eq_false_iff, CostOrder.isBelow, Ne, Double.natBelow_iff hr, not_lt]
    have hleast := Double.least_le 1 (by decide) (by norm_num : (1 / 2 ^ 1 : ℝ) ≤ 1)
    have hpow : (2 : ℝ) ^ 80 ≤ k := by
      have hself : 2 ^ k.log2 ≤ k := Nat.log2_self_le (by rintro rfl; cases hk)
      exact_mod_cast (Nat.pow_le_pow_right (by decide) (by omega)).trans hself
    linarith [le_abs_self (r - (p - q)), le_abs_self (p - q)]

/-- The order of a cost is compared with an exponent, unless it is beyond all doubles. -/
theorem caseOf_cases (o : CostOrder) (hx : value? x = some p) (hp : |p| < 2 ^ 70) :
    (∃ c, Comparison.double.caseOf o x = .ok c) ∧ (∃ f, o.toFloat = .ok f)
    ∨ Comparison.double.caseOf o x = .error .tooLarge ∧ o.toFloat = .error .tooLarge := by
  cases hf : o.toFloat with
  | ok f =>
    have hnear : Comparison.double.isNear o x = .ok ((f - x).abs < margin) := by
      simp only [Comparison.double, hf]
      rfl
    exact .inl ⟨⟨_, Comparison.caseOf_of_answers (c := .double) rfl hnear⟩, f, rfl⟩
  | error e =>
    obtain ⟨rfl, hbelow⟩ := isBelow_of_toFloat_eq_error hf hx hp
    refine .inr ⟨?_, rfl⟩
    simp only [Comparison.caseOf, Comparison.double, hbelow, hf]
    rfl

/-- A cost is compared with an exponent, unless there is a reason against it. -/
theorem decide_cases (cost : String) (hx : value? x = some p) (hp : |p| < 2 ^ 70) :
    (∃ e, Comparison.double.decide cost x = .error e ∧ CostOrder.Raises cost e)
    ∨ (∃ c, Comparison.double.decide cost x = .ok c) ∧ ∀ e, ¬CostOrder.Raises cost e := by
  unfold Comparison.decide CostOrder.read
  cases htable : CostOrder.table.lookup (ofList (lower cost.toList)) with
  | some o =>
    -- the orders in the table are small
    have hsmall : ∀ r ∈ CostOrder.table, r.2.IsSmall := by
      simp only [CostOrder.table, forall_mem_cons, CostOrder.IsSmall, not_mem_nil,
        false_implies, implies_true]
      decide
    obtain ⟨l₁, l₂, hl, -⟩ := lookup_eq_some_iff.mp htable
    have hmem : (ofList (lower cost.toList), o) ∈ CostOrder.table := by
      rw [hl]
      simp
    obtain ⟨y, -, hy, -⟩ := CostOrder.value?_toFloat (hsmall _ hmem)
    rcases caseOf_cases o hx hp with ⟨hcase, -⟩ | ⟨-, hf⟩
    · refine .inr ⟨hcase, ?_⟩
      rintro e (⟨h, -, -⟩ | ⟨h, -, -⟩) <;> cases htable.symm.trans h
    · cases hf.symm.trans hy
  | none =>
    cases hsearch : CostOrder.power.search cost.toList with
    | none =>
      refine .inr ⟨⟨.two, rfl⟩, ?_⟩
      rintro e (⟨-, h, -⟩ | ⟨-, h, -⟩) <;> cases hsearch.symm.trans h
    | some runs =>
      have htakes : List.Forall₂ Piece.Takes [digits] runs := takes_of_search hsearch
      obtain _ | ⟨hk, _ | _⟩ := htakes
      rcases number_cases hk with ⟨hlong, e, he⟩ | ⟨hshort, hok⟩
      · refine .inl ⟨_, ?_, .long (e := e) htable hsearch hlong⟩
        simp only [he]
        rfl
      · simp only [hok]
        rcases caseOf_cases (.whole _) hx hp with ⟨hcase, f, hf⟩ | ⟨hcase, hf⟩
        · refine .inr ⟨hcase, ?_⟩
          rintro e (⟨-, h, hlong⟩ | ⟨-, h, hlarge⟩) <;> cases hsearch.symm.trans h
          · exact hshort hlong
          · rw [CostOrder.toFloat, hlarge] at hf
            cases hf
        · refine .inl ⟨_, hcase, .large htable hsearch ?_⟩
          rw [CostOrder.toFloat] at hf
          split at hf
          · cases hf
          · assumption

/-! ### Answers -/

/-- Why the theorem cannot be applied to a recurrence, by the digits of its numbers and its
    cost. -/
inductive Master.Raises (a b : List Char) (cost : String) : SolverError → Prop
  | long {e : Decimal.NumeralError} (h : IsLong a ∨ IsLong b) : Raises a b cost (.numeral e)
  | logOfZero (h : worth a = 0 ∨ worth b = 0) : Raises a b cost .logOfZero
  | baseOne (ha : 1 ≤ worth a) (hb : worth b = 1) : Raises a b cost .baseOne
  | cost {e : SolverError} (h : CostOrder.Raises cost e) : Raises a b cost e

/-- What is found in a text either has a solution and no reason to fail, or fails for a reason. -/
theorem Master.solveBy_cases {a b : List Char} {cost : String}
    (h : Divide.found? s = some (a, b, cost)) (ha : IsTameAt log (worth a))
    (hb : IsTameAt log (worth b)) : (∃ e, solveBy log s = .error e ∧ Raises a b cost e)
    ∨ (∃ m, solveBy log s = .ok (some m)) ∧ ∀ e, ¬Raises a b cost e := by
  rcases Divide.read_cases s with ⟨hnone, -⟩ | ⟨_, _, _, hfound, hta, htb, hread⟩
  · cases h.symm.trans hnone
  cases h.symm.trans hfound
  rcases number_cases hta with ⟨hlong, e, he⟩ | ⟨hshort, hok⟩
  · exact .inl ⟨_, by rw [solveBy, hread, he]; rfl, .long (e := e) (.inl hlong)⟩
  rcases number_cases htb with ⟨hlong, e, he⟩ | ⟨hshort', hok'⟩
  · exact .inl ⟨_, by rw [solveBy, hread, hok, he]; rfl, .long (e := e) (.inr hlong)⟩
  let m (x : Float) (c : Case) : Master := ⟨⟨worth a, worth b, cost⟩, x, c⟩
  have hsolve : solveBy log s = do
      let x ← logBaseBy log (worth b) (worth a)
      return some (m x (← Comparison.double.decide cost x)) := by
    simp only [solveBy, hread, hok, hok', ofDivide, bind_assoc, pure_bind]
    rfl
  rcases logBaseBy_cases ha hb with
    ⟨hzero, he⟩ | ⟨⟨hpos, hone⟩, he⟩ | ⟨⟨hpos, htwo⟩, x, p, hx, hp, hsize⟩
  · exact .inl ⟨_, by rw [hsolve, he]; rfl, .logOfZero hzero⟩
  · exact .inl ⟨_, by rw [hsolve, he]; rfl, .baseOne hpos hone⟩
  have hstep : solveBy log s = do return some (m x (← Comparison.double.decide cost x)) := by
    rw [hsolve, hx]
    rfl
  rcases decide_cases cost hp hsize with ⟨e, he, hraises⟩ | ⟨⟨c, hc⟩, hnone⟩
  · exact .inl ⟨e, by rw [hstep, he]; rfl, .cost hraises⟩
  · refine .inr ⟨⟨m x c, by rw [hstep, hc]; rfl⟩, ?_⟩
    rintro e (⟨hlong | hlong⟩ | ⟨hzero | hzero⟩ | ⟨-, hone⟩ | hraises)
    exacts [hshort hlong, hshort' hlong, by omega, by omega, by omega, hnone _ hraises]

/-- **When the master theorem fails.** A text in which no recurrence is found is answered without
    success.  For a recurrence that is found, with the digits of `a` and `b` and a cost, there is
    no answer exactly if there is a reason: too many digits, a zero, the base one with `a` positive,
    or a cost outside the table with an exponent of too many digits or beyond all doubles.  The
    error names the reason.  All other recurrences are solved by one of the three cases.

    Of the logarithm it is assumed that it is tame at the two numbers.  If it were only finite and
    positive there, the exponent could be infinite, and would then exceed every cost. -/
theorem Master.fails_iff (hlog : ∀ a b cost, Divide.found? s = some (a, b, cost) →
      IsTameAt log (worth a) ∧ IsTameAt log (worth b)) (given : Value) : (Divide.found? s = none →
      ∃ v, reportBy log given s = .ok v ∧ v.get? "success" = some (.bool false))
    ∧ ∀ a b cost, Divide.found? s = some (a, b, cost) →
      ((∃ e, reportBy log given s = .error e) ↔ ∃ e, Raises a b cost e)
      ∧ (∀ e, reportBy log given s = .error e → Raises a b cost e)
      ∧ ∀ v, reportBy log given s = .ok v → v.get? "success" = some (.bool true)
        ∧ ∃ c : Case, v.get? "case" = some (.int c.number) := by
  constructor
  · intro hnone
    rcases Divide.read_cases s with ⟨-, hread⟩ | ⟨_, _, _, hfound, -⟩
    · exact ⟨_, by rw [reportBy, solveBy, hread]; rfl, rfl⟩
    · cases hnone.symm.trans hfound
  · intro a b cost hfound
    obtain ⟨ha, hb⟩ := hlog a b cost hfound
    rcases solveBy_cases hfound ha hb with ⟨e, he, hraises⟩ | ⟨⟨m, hm⟩, hnone⟩
    · have herror : reportBy log given s = .error e := by rw [reportBy, he]; rfl
      rw [herror]
      exact ⟨⟨fun _ => ⟨e, hraises⟩, fun _ => ⟨e, rfl⟩⟩, by rintro _ ⟨⟩; exact hraises,
        by rintro _ ⟨⟩⟩
    · have hreport : reportBy log given s = .ok m.toValue := by rw [reportBy, hm]; rfl
      rw [hreport]
      refine ⟨⟨by rintro ⟨_, ⟨⟩⟩, fun h => absurd h (not_exists.mpr hnone)⟩, by rintro _ ⟨⟩, ?_⟩
      rintro _ ⟨⟩
      exact ⟨rfl, m.case, rfl⟩

/-- A recurrence that divides by one has no solution. -/
theorem Master.fails_of_base_one : Divide.found? "T(n) = 2T(n/1) + O(n)" = some (['2'], ['1'], "n")
    ∧ ∃ e, reportBy Double.roundedLog .none "T(n) = 2T(n/1) + O(n)" = .error e := by
  have hfound : Divide.found? "T(n) = 2T(n/1) + O(n)" = some (['2'], ['1'], "n") := by decide
  refine ⟨hfound, ((fails_iff ?_ .none).2 _ _ _ hfound).1.mpr ⟨_, .baseOne (by decide) rfl⟩⟩
  rintro _ _ _ h
  cases hfound.symm.trans h
  exact ⟨isTameAt_of_isAccurateLog Double.isAccurateLog_roundedLog (by decide), .inl (by decide)⟩

end Ordo.Recurrence
