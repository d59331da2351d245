import Ordo.Proofs.Doubles

namespace Ordo.Double

open Float.Model (Format UnpackedFloat totalExponent)
open Float.Model.UnpackedFloat

/-!
# Rounding

A result is cut to the exponent of the double nearest to it, goes up by at most one unit there, and
a carry moves the exponent but not the value.  So what is computed is off by at most one unit in the
last place, whatever the digits beyond it.

* `target`, `cut` — the exponent that parts are rounded to, and what is left of them there;
* `roundWithAccuracy_eq`, `isRounded_roundWithAccuracy` — what is rounded, and how far it is off;
* `value?_sub`, `value?_div` — differences and quotients of doubles.
-/

attribute [local instance] atLeastTwo_two in
/-- The least positive double. -/
noncomputable def least : ℝ := 2 ^ (-1074 : ℤ)

attribute [local instance] atLeastTwo_two in
/-- A number below which nothing is rounded to infinity. -/
noncomputable def limit : ℝ := 2 ^ (1023 : ℤ)

theorem least_pos : 0 < least := zpow_pos two_pos _

variable {x v p q : ℝ}

variable (n : ℕ) (em : ExtendedMantissa)

theorem least_le (hn : n ≤ 1074) (hx : 1 / 2 ^ n ≤ x) : least ≤ x := by
  refine le_trans ?_ hx
  rw [least, one_div, ← zpow_natCast, ← zpow_neg]
  exact zpow_le_zpow_right₀ one_le_two (by omega)

theorem lt_limit (hn : n ≤ 1023) (hx : x < 2 ^ n) : x < limit := by
  refine hx.trans_le ?_
  rw [limit, ← zpow_natCast]
  exact zpow_le_zpow_right₀ one_le_two (by omega)

variable {s : Sign} {m : ℕ} {e : ℤ}

/-! ### Cutting and rounding -/

theorem mantissa_shiftRight (k : ℕ) : (em >>> k).mantissa = em.mantissa / 2 ^ k := by
  induction k with
  | zero => simp [HShiftRight.hShiftRight, Nat.repeat]
  | succ k ih =>
    change (em >>> k).mantissa / 2 = _
    rw [ih, Nat.div_div_eq_div_mul, Nat.pow_succ]

theorem mantissa_ofMantissaAndAccuracy (m : ℕ) (a : Accuracy) :
    (ExtendedMantissa.ofMantissaAndAccuracy m a).mantissa = m := by
  rcases a with _ | (_ | _ | _) <;> rfl

/-- Rounding goes down or up by less than a unit. -/
theorem roundedMantissa_bounds :
    em.mantissa ≤ em.roundedMantissa ∧ em.roundedMantissa ≤ em.mantissa + 1 := by
  obtain ⟨m, _ | _, _ | _⟩ := em <;>
    simp only [ExtendedMantissa.roundedMantissa, ExtendedMantissa.accuracy,
      Accuracy.roundToNearestEven] <;> omega

/-- The exponent that parts are rounded to. -/
def target (m : ℕ) (e : ℤ) : ℤ := Format.binary64.targetExponent (totalExponent m e)

theorem target_eq (m : ℕ) (e : ℤ) : target m e = max (m.log2 + 1 + e - 53) (-1074) := rfl

/-- The significand cut to the exponent that it is rounded to. -/
def cut (m : ℕ) (e : ℤ) : ℕ := m / 2 ^ (target m e - e).toNat

/-- The shift to the exponent of a double. -/
theorem shiftToTargetExponent_eq (m : ℕ) (e : ℤ) (a : Accuracy) :
    ∃ em : ExtendedMantissa, em.mantissa = cut m e
      ∧ shiftToTargetExponent Format.binary64 m e a = (em, e + (target m e - e).toNat) :=
  ⟨_, by rw [mantissa_shiftRight, mantissa_ofMantissaAndAccuracy]; rfl, rfl⟩

theorem cut_lt (he : e ≤ target m e) : cut m e < 2 ^ 53 := by
  rw [cut, Nat.div_lt_iff_lt_mul (by positivity), ← pow_add]
  refine Nat.lt_log2_self.trans_le (Nat.pow_le_pow_right (by decide) ?_)
  rw [target_eq] at *
  omega

theorem le_cut (he : e ≤ target m e) (ht : target m e ≠ -1074) : 2 ^ 52 ≤ cut m e := by
  have htarget : target m e = m.log2 + e - 52 := by
    rw [target_eq] at *
    omega
  have hm : m ≠ 0 := by
    rintro rfl
    rw [target_eq, Nat.log2_zero] at *
    omega
  rw [cut, Nat.le_div_iff_mul_le (by positivity), ← pow_add]
  refine (Nat.pow_le_pow_right (by decide) ?_).trans (Nat.log2_self_le hm)
  omega

/-- A significand of at most 53 bits is not cut, but for the carry to a 54th. -/
theorem cut_rounded {r : ℕ} {t : ℤ} (ht : -1074 ≤ t) (hr : r ≤ 2 ^ 53) :
    (cut r t : ℝ) * 2 ^ (t + (target r t - t).toNat) = r * 2 ^ t ∧ cut r t < 2 ^ 53
      ∧ (2 ^ 52 ≤ r → 2 ^ 52 ≤ cut r t) ∧ (2 ^ 52 ≤ cut r t ∨ (target r t - t).toNat = 0) := by
  rcases hr.lt_or_eq with hlt | rfl
  · have hlog : r.log2 < 53 := by
      rcases r.eq_zero_or_pos with rfl | hpos
      · decide
      · exact (Nat.log2_lt hpos.ne').mpr hlt
    have hshift : (target r t - t).toNat = 0 := by
      rw [target_eq]
      omega
    have hcut : cut r t = r := by rw [cut, hshift, pow_zero, Nat.div_one]
    rw [hcut, hshift, Nat.cast_zero, add_zero]
    exact ⟨rfl, hlt, id, .inr rfl⟩
  · have hshift : (target (2 ^ 53) t - t).toNat = 1 := by
      rw [target_eq, Nat.log2_two_pow]
      omega
    have hcut : cut (2 ^ 53) t = 2 ^ 52 := by rw [cut, hshift]; rfl
    rw [hcut, hshift, zpow_add₀ two_ne_zero]
    exact ⟨by push_cast; ring, by decide, fun _ => le_rfl, .inl le_rfl⟩

/-- Parts after rounding: the significand is cut, goes up by at most one, and is that of a
    double, unless it is too large. -/
theorem roundWithAccuracy_eq (he : e ≤ target m e) (s : Sign) (a : Accuracy) :
    ∃ r : ℕ, (r = cut m e ∨ r = cut m e + 1)
      ∧ (r = 0 ∧ roundWithAccuracy Format.binary64 s m e a = .zero s
        ∨ ∃ (m' : ℕ) (e' : ℤ) (hm' : 0 < m'),
          roundWithAccuracy Format.binary64 s m e a = .finite s m' e' hm'
            ∧ (m' : ℝ) * 2 ^ e' = r * 2 ^ target m e
            ∧ m' < 2 ^ 53 ∧ -1074 ≤ e' ∧ (2 ^ 52 ≤ m' ∨ e' = -1074)) := by
  obtain ⟨em, hem, hfirst⟩ := shiftToTargetExponent_eq m e a
  have hexponent : e + (target m e - e).toNat = target m e := by omega
  obtain ⟨hdown, hup⟩ := roundedMantissa_bounds em
  obtain ⟨em', hem', hsecond⟩ :=
    shiftToTargetExponent_eq em.roundedMantissa (target m e) .exact
  have ht : -1074 ≤ target m e := le_max_right _ _
  have hcut := cut_lt he
  have hfull := le_cut he
  rw [hem] at hdown hup
  obtain ⟨hvalue, hlt, hkeep, hsame⟩ := cut_rounded ht (show em.roundedMantissa ≤ 2 ^ 53 by omega)
  refine ⟨em.roundedMantissa, by omega, ?_⟩
  unfold roundWithAccuracy
  rw [hfirst]
  dsimp only
  rw [hexponent, hsecond]
  dsimp only
  rw [← hem'] at hvalue hlt hkeep hsame
  split_ifs with hzero
  · rw [hzero] at hvalue
    have hpow : (2 : ℝ) ^ target m e ≠ 0 := by positivity
    exact .inl ⟨by simpa [hpow] using hvalue.symm, rfl⟩
  · refine .inr ⟨_, _, Nat.pos_of_ne_zero hzero, rfl, hvalue, hlt, by omega, ?_⟩
    by_cases hleast : target m e = -1074
    · exact hsame.imp id fun h => by omega
    · exact .inl (hkeep ((hfull hleast).trans hdown))

/-- A number is between a significand cut and the next one. -/
theorem cut_mul_le (he : e ≤ target m e) (hlow : m * 2 ^ e ≤ v) : cut m e * 2 ^ target m e ≤ v := by
  have hcut : (cut m e * 2 ^ (target m e - e).toNat : ℝ) ≤ m := by
    exact_mod_cast Nat.div_mul_le_self m _
  calc (cut m e : ℝ) * 2 ^ target m e
      = cut m e * 2 ^ (target m e - e).toNat * 2 ^ e := by
        rw [mul_assoc, ← zpow_natCast, ← zpow_add₀ two_ne_zero]
        congr 2
        omega
    _ ≤ m * 2 ^ e := by gcongr
    _ ≤ v := hlow

theorem le_cut_mul (he : e ≤ target m e) (hhigh : v ≤ (m + 1) * 2 ^ e) :
    v ≤ (cut m e + 1) * 2 ^ target m e := by
  have hcut : (m + 1 : ℝ) ≤ (cut m e + 1) * 2 ^ (target m e - e).toNat := by
    exact_mod_cast Nat.lt_mul_of_div_lt (Nat.lt_succ_self _) (by positivity)
  calc v ≤ (m + 1) * 2 ^ e := hhigh
    _ ≤ (cut m e + 1) * 2 ^ (target m e - e).toNat * 2 ^ e := by gcongr
    _ = (cut m e + 1) * 2 ^ target m e := by
        rw [mul_assoc, ← zpow_natCast, ← zpow_add₀ two_ne_zero]
        congr 2
        omega

/-- The unit that parts are rounded to, by the number that they stand for. -/
theorem zpow_target_le (he : e ≤ target m e) (hlow : m * 2 ^ e ≤ v) (hv : 0 ≤ v) :
    (2 : ℝ) ^ target m e ≤ v / 2 ^ 52 + least := by
  by_cases hleast : target m e = -1074
  · rw [hleast, ← least]
    have : 0 ≤ v / 2 ^ 52 := by positivity
    linarith
  · have hcut : (2 ^ 52 : ℝ) ≤ cut m e := by exact_mod_cast le_cut he hleast
    have hunit : (2 : ℝ) ^ target m e ≤ v / 2 ^ 52 := by
      rw [le_div_iff₀' (by positivity)]
      exact (mul_le_mul_of_nonneg_right hcut (by positivity)).trans (cut_mul_le he hlow)
    linarith [least_pos]

attribute [local instance] atLeastTwo_two in
/-- A number as the parts of a double, off by at most a unit in the last place. -/
def IsRounded (u : UnpackedFloat) (v : ℝ) : Prop :=
  ∃ r, partsValue? (Float.Model.pack u).unpack = some r ∧ |r - v| ≤ |v| / 2 ^ 52 + least

theorem isRounded_zero (s : Sign) : IsRounded (.zero s) 0 :=
  ⟨0, by rw [unpack_pack_zero, partsValue?], by simp [least_pos.le]⟩

theorem isRounded_finite (h : IsCanonical m e) (hm : 0 < m) :
    IsRounded (.finite s m e hm) (s.apply 1 * (m * 2 ^ e)) :=
  ⟨_, by rw [unpack_pack_finite h, partsValue?], by
    rw [sub_self, abs_zero]
    have := least_pos
    positivity⟩

/-- Rounding gives a double that is off by at most a unit in the last place. -/
theorem isRounded_roundWithAccuracy (he : e ≤ target m e) (hlow : m * 2 ^ e ≤ v)
    (hhigh : v ≤ (m + 1) * 2 ^ e) (hv : v < limit) (s : Sign) (a : Accuracy) :
    IsRounded (roundWithAccuracy Format.binary64 s m e a) (s.apply 1 * v) := by
  have hnonneg : 0 ≤ v := le_trans (by positivity) hlow
  have hdown := cut_mul_le he hlow
  have hup := le_cut_mul he hhigh
  have hunit := zpow_target_le he hlow hnonneg
  obtain ⟨r, hr, hparts⟩ := roundWithAccuracy_eq he s a
  have hclose : |r * 2 ^ target m e - v| ≤ |s.apply 1 * v| / 2 ^ 52 + least := by
    rw [abs_mul, abs_apply_one, one_mul, abs_of_nonneg hnonneg]
    refine le_trans (abs_le.mpr ?_) hunit
    rcases hr with rfl | rfl <;> push_cast <;> constructor <;> linarith
  rcases hparts with ⟨rfl, hzero⟩ | ⟨m', e', hm', hfinite, hvalue, hbounded, hleast, hfull⟩
  · refine ⟨0, by rw [hzero, unpack_pack_zero, partsValue?], ?_⟩
    simpa [abs_mul, abs_apply_one] using hclose
  · have hmost : e' ≤ 971 := by
      by_contra hlarge
      have hm' : (2 ^ 52 : ℝ) ≤ m' := by exact_mod_cast hfull.resolve_right (by omega)
      have hlimit : 2 * limit ≤ m' * 2 ^ e' := by
        calc 2 * limit = 2 ^ 52 * 2 ^ (972 : ℤ) := by
              rw [limit, ← zpow_one_add₀ two_ne_zero, ← zpow_natCast, ← zpow_add₀ two_ne_zero]
              rfl
          _ ≤ m' * 2 ^ e' := by
              gcongr
              · exact one_le_two
              · omega
      have hone : least ≤ 1 / 2 := least_le 1 (by decide) (by norm_num)
      have hover : m' * 2 ^ e' ≤ v + 2 ^ target m e := by
        rw [hvalue]
        have hpos : (0 : ℝ) < 2 ^ target m e := by positivity
        rcases hr with rfl | rfl <;> push_cast <;> linarith
      linarith [lt_limit 1 (by decide) (by norm_num : (1 : ℝ) < 2 ^ 1)]
    refine ⟨s.apply 1 * (m' * 2 ^ e'), ?_, ?_⟩
    · rw [hfinite, unpack_pack_finite ⟨hbounded, hleast, hmost, hfull⟩, partsValue?]
    · rwa [← mul_sub, abs_mul, abs_apply_one, one_mul, hvalue]

/-! ### Operations -/

theorem log2_shiftLeft (hm : m ≠ 0) (k : ℕ) : (m <<< k).log2 = m.log2 + k := by
  rw [Nat.shiftLeft_eq, Nat.log2_eq_iff (by positivity), Nat.add_right_comm, pow_add, pow_add]
  exact ⟨Nat.mul_le_mul_right _ (Nat.log2_self_le hm),
    Nat.mul_lt_mul_of_pos_right Nat.lt_log2_self (by positivity)⟩

theorem shiftLeft_mul_zpow (m k : ℕ) (e : ℤ) : ((m <<< k : ℕ) : ℝ) * 2 ^ (e - k) = m * 2 ^ e := by
  rw [Nat.shiftLeft_eq, zpow_sub₀ two_ne_zero, zpow_natCast]
  push_cast
  field_simp

theorem isRounded_round (hm : 0 < m) (hv : m * 2 ^ e < limit) (s : Sign) :
    IsRounded (round Format.binary64 s m e) (s.apply 1 * (m * 2 ^ e)) := by
  set k := (e - target m e).toNat with hk
  have htarget : target (m <<< k) (e - k) = target m e := by
    rw [target_eq, target_eq, log2_shiftLeft hm.ne']
    congr 1
    push_cast
    ring
  have hround : round Format.binary64 s m e
      = roundWithAccuracy Format.binary64 s (m <<< k) (e - k) .exact := rfl
  have hvalue := shiftLeft_mul_zpow m k e
  rw [hround]
  refine isRounded_roundWithAccuracy (by rw [htarget]; omega) hvalue.le ?_ hv s _
  have hpos : (0 : ℝ) < 2 ^ (e - k) := by positivity
  linarith

theorem isRounded_normalize {n : ℤ} (hv : |(n : ℝ) * 2 ^ e| < limit) (s : Sign) :
    IsRounded (UnpackedFloat.normalize Format.binary64 n e s) (n * 2 ^ e) := by
  unfold UnpackedFloat.normalize
  rcases lt_trichotomy n 0 with hn | rfl | hn
  · obtain ⟨k, rfl⟩ : ∃ k : ℕ, n = -k := ⟨(-n).toNat, by omega⟩
    have hsmall : (k : ℝ) * 2 ^ e < limit := by
      rw [Int.cast_neg, neg_mul, abs_neg] at hv
      exact (le_abs_self _).trans_lt hv
    have hround := isRounded_round (by omega) hsmall .negative
    rw [compare_lt_iff_lt.mpr hn]
    simpa [Sign.apply] using hround
  · simpa using isRounded_zero s
  · lift n to ℕ using hn.le
    have hround := isRounded_round (by exact_mod_cast hn) ((le_abs_self _).trans_lt hv) .positive
    rw [compare_gt_iff_gt.mpr hn]
    simpa [Sign.apply] using hround

theorem apply_eq (s : Sign) (n : ℤ) : s.apply n = s.apply 1 * n := by
  cases s <;> simp [Sign.apply]

theorem apply_neg_one (s : Sign) : (-s).apply 1 = -s.apply 1 := by
  cases s <;> rfl

/-- A difference of doubles is off by at most a unit in the last place. -/
theorem value?_sub {x y : Float} (hx : value? x = some p) (hy : value? y = some q)
    (hv : |p - q| < limit) :
    ∃ r, value? (x - y) = some r ∧ |r - (p - q)| ≤ |p - q| / 2 ^ 52 + least := by
  change IsRounded (sub Format.binary64 x.toModel.unpack y.toModel.unpack) (p - q)
  obtain ⟨⟨s, hu⟩, rfl⟩ | ⟨s, m, e, hm, hu, rfl⟩ := partsValue?_eq_some hx <;>
    obtain ⟨⟨s', hw⟩, rfl⟩ | ⟨s', m', e', hm', hw, rfl⟩ := partsValue?_eq_some hy <;>
    rw [hu, hw]
  · have hsub : sub Format.binary64 (.zero s) (.zero s')
        = if s == -s' then .zero s else .zero .positive := rfl
    rw [hsub, sub_zero]
    split_ifs <;> exact isRounded_zero _
  · have hexact := isRounded_finite (s := -s') (isCanonical_of_unpack hw) hm'
    rw [apply_neg_one, Int.cast_neg, neg_mul] at hexact
    rwa [zero_sub]
  · rw [sub_zero]
    exact isRounded_finite (isCanonical_of_unpack hu) hm
  · set k := (e - min e e').toNat with hk
    set k' := (e' - min e e').toNat with hk'
    have hleft := shiftLeft_mul_zpow m k e
    have hright := shiftLeft_mul_zpow m' k' e'
    rw [show e - k = min e e' by omega] at hleft
    rw [show e' - k' = min e e' by omega] at hright
    have hsum : ((s.apply (m <<< k : ℕ) - s'.apply (m' <<< k' : ℕ) : ℤ) : ℝ) * 2 ^ min e e'
        = s.apply 1 * (m * 2 ^ e) - s'.apply 1 * (m' * 2 ^ e') := by
      rw [apply_eq s, apply_eq s', ← hleft, ← hright, Int.cast_sub, Int.cast_mul, Int.cast_mul,
        Int.cast_natCast, Int.cast_natCast]
      ring
    rw [← hsum] at hv ⊢
    exact isRounded_normalize hv _

theorem apply_div_one (s s' : Sign) : (s / s').apply 1 = s.apply 1 * s'.apply 1 := by
  cases s <;> cases s' <;> rfl

theorem apply_one_mul_self (s : Sign) : s.apply 1 * s.apply 1 = 1 := by
  cases s <;> rfl

/-- The quotient of two significands, cut to a whole number of units that are small enough. -/
theorem divCore_bounds {m' : ℕ} {e' : ℤ} (hm : 0 < m) (hm' : 0 < m') :
    ∃ (n : ℕ) (t : ℤ) (a : Accuracy), divCore Format.binary64 m e m' e' = (n, t, a)
      ∧ t ≤ target n t ∧ n * 2 ^ t ≤ (m * 2 ^ e / (m' * 2 ^ e') : ℝ)
      ∧ (m * 2 ^ e / (m' * 2 ^ e') : ℝ) ≤ (n + 1) * 2 ^ t := by
  set t := min (e - e') (max (totalExponent m e - totalExponent m' e' - 53) (-1074)) with ht
  set k := (e - e' - t).toNat with hk
  have hpow : (2 : ℝ) ^ e = 2 ^ k * 2 ^ t * 2 ^ e' := by
    rw [← zpow_natCast, ← zpow_add₀ two_ne_zero, ← zpow_add₀ two_ne_zero]
    congr 1
    omega
  have hquotient : (m * 2 ^ e / (m' * 2 ^ e') : ℝ) = ((m <<< k : ℕ) : ℝ) / m' * 2 ^ t := by
    rw [hpow, Nat.shiftLeft_eq, Nat.cast_mul, Nat.cast_pow, Nat.cast_ofNat]
    field_simp
  refine ⟨(m <<< k) / m', t, _, rfl, ?_, ?_, ?_⟩
  · rw [target_eq]
    by_contra hsmall
    have hshift : m'.log2 + 1 + 52 ≤ m.log2 + k := by
      rw [totalExponent, totalExponent] at ht
      omega
    have hfull : 2 ^ 52 ≤ (m <<< k) / m' := by
      rw [Nat.le_div_iff_mul_le hm', Nat.shiftLeft_eq]
      calc 2 ^ 52 * m' ≤ 2 ^ 52 * 2 ^ (m'.log2 + 1) := by gcongr; exact Nat.lt_log2_self.le
        _ = 2 ^ (m'.log2 + 1 + 52) := by rw [← pow_add, Nat.add_comm]
        _ ≤ 2 ^ (m.log2 + k) := Nat.pow_le_pow_right (by decide) hshift
        _ = 2 ^ m.log2 * 2 ^ k := pow_add _ _ _
        _ ≤ m * 2 ^ k := by gcongr; exact Nat.log2_self_le hm.ne'
    have hlog := (Nat.le_log2 (k := 52) (by omega : (m <<< k) / m' ≠ 0)).mpr hfull
    omega
  · rw [hquotient]
    gcongr
    exact Nat.cast_div_le
  · rw [hquotient]
    gcongr
    rw [div_le_iff₀ (by exact_mod_cast hm')]
    exact_mod_cast (Nat.lt_mul_of_div_lt (Nat.lt_succ_self _) hm').le

/-- A quotient of doubles is off by at most a unit in the last place. -/
theorem value?_div {x y : Float} (hx : value? x = some p) (hy : value? y = some q)
    (hq : q ≠ 0) (hv : |p / q| < limit) :
    ∃ r, value? (x / y) = some r ∧ |r - p / q| ≤ |p / q| / 2 ^ 52 + least := by
  change IsRounded (div Format.binary64 x.toModel.unpack y.toModel.unpack) (p / q)
  obtain ⟨-, rfl⟩ | ⟨s', m', e', hm', hw, rfl⟩ := partsValue?_eq_some hy
  · exact absurd rfl hq
  obtain ⟨⟨s, hu⟩, rfl⟩ | ⟨s, m, e, hm, hu, rfl⟩ := partsValue?_eq_some hx <;> rw [hu, hw]
  · rw [zero_div]
    exact isRounded_zero _
  · obtain ⟨n, t, a, hcore, htarget, hlow, hhigh⟩ := @divCore_bounds m e m' e' hm hm'
    have hquotient : (s.apply 1 * (m * 2 ^ e) / (s'.apply 1 * (m' * 2 ^ e')) : ℝ)
        = (s / s').apply 1 * (m * 2 ^ e / (m' * 2 ^ e')) := by
      have hs : ((s'.apply 1 : ℤ) : ℝ) * s'.apply 1 = 1 := by exact_mod_cast apply_one_mul_self s'
      have hs' : ((s'.apply 1 : ℤ) : ℝ) ≠ 0 := left_ne_zero_of_mul_eq_one hs
      rw [apply_div_one, Int.cast_mul]
      field_simp
      linear_combination -(s.apply 1 : ℝ) * hs
    have hdiv : div Format.binary64 (.finite s m e hm) (.finite s' m' e' hm')
        = roundWithAccuracy Format.binary64 (s / s') n t a := by
      rw [div, hcore]
    rw [hquotient, abs_mul, abs_apply_one, one_mul] at hv
    rw [hquotient, hdiv]
    exact isRounded_roundWithAccuracy htarget hlow hhigh ((le_abs_self _).trans_lt hv) _ _

end Ordo.Double
