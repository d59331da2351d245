import Ordo.Proofs.Rounding
import Ordo.Recurrence.Master

namespace Ordo.Double

open Float.Model (Format UnpackedFloat)
open Float.Model.UnpackedFloat
open Recurrence (natBelow)

/-!
# Logarithms of whole numbers

The logarithm of a number to a base is the quotient of two logarithms of doubles, each of the double
nearest to a whole number.  If a logarithm of doubles is off by a unit in the last place at most,
the quotient is as exact as can be expected.

* `natBelow_iff` — whether a whole number is below a double;
* `value?_ofNat?` — the double nearest to a whole number;
* `IsAccurateLog` — that a logarithm of doubles is accurate;
* `value?_logBaseBy` — the logarithm to a base is off by less than `1 / 10 ^ 10`;
* `roundedLog`, `isAccurateLog_roundedLog` — an accurate logarithm.
-/

open Decimal (roundDiv infinityBits nearestBits)

variable {s : Sign} {m : ℕ} {e : ℤ}

/-! ### Whole numbers as doubles -/

theorem ofBits?_of_unpack {b : BitVec 64} {hm : 0 < m}
    (h : unpack Format.binary64 b = .finite s m e hm) :
    ∃ narrow, Decimal.Binary.ofBits? b.toNat = some ⟨m, e, narrow⟩ := by
  obtain ⟨-, hfinite, hparts⟩ := unpack_eq_finite_iff.mp h
  have hfield : b.toNat / Nat.pow 2 52 % Nat.pow 2 11 = field b.toNat := rfl
  have hfraction : b.toNat % Nat.pow 2 52 = fraction b.toNat := rfl
  unfold Decimal.Binary.ofBits?
  dsimp only
  rw [hfield, hfraction, if_neg hfinite]
  rcases hparts with ⟨hzero, rfl, rfl⟩ | ⟨hzero, rfl, rfl⟩
  · exact ⟨_, by rw [if_pos hzero, if_neg hm.ne']⟩
  · exact ⟨_, by rw [if_neg hzero]; rfl⟩

variable {n a b : ℕ} {x : Float}

theorem lt_scale2_iff :
    Decimal.Ratio.lt ⟨n, 1⟩ (Decimal.Ratio.scale2 m e) = true ↔ (n : ℝ) < m * 2 ^ e := by
  unfold Decimal.Ratio.lt Decimal.Ratio.scale2
  split_ifs with he
  · lift e to ℕ using he
    simp only [mul_one, decide_eq_true_eq, Int.toNat_natCast, zpow_natCast]
    exact_mod_cast Iff.rfl
  · obtain ⟨k, rfl⟩ : ∃ k : ℕ, e = -k := ⟨(-e).toNat, by omega⟩
    rw [zpow_neg, ← div_eq_mul_inv, lt_div_iff₀ (by positivity)]
    simp only [mul_one, decide_eq_true_eq, neg_neg, Int.toNat_natCast, zpow_natCast]
    exact_mod_cast Iff.rfl

/-- Whether a whole number is below a double. -/
theorem natBelow_iff {p : ℝ} (hx : value? x = some p) (n : ℕ) :
    natBelow n x = true ↔ (n : ℝ) < p := by
  have hsign := le_iff hx (show value? 0.0 = some 0 from rfl)
  unfold natBelow
  obtain ⟨⟨s, hu⟩, rfl⟩ | ⟨s, m, e, hm, hu, rfl⟩ := partsValue?_eq_some hx
  · simp [hsign]
  · have hnan : x.isNaN = false := congrArg UnpackedFloat.isNaN hu
    have hinf : x.isInf = false := congrArg UnpackedFloat.isInf hu
    obtain ⟨narrow, hbits⟩ := ofBits?_of_unpack hu
    change Decimal.Binary.ofBits? x.toBits.toNat = _ at hbits
    have hpos : (0 : ℝ) < m * 2 ^ e := by positivity
    simp only [hnan, hinf, hsign, hbits, Bool.false_or]
    cases s with
    | positive =>
      have hone : ((Sign.positive.apply 1 : ℤ) : ℝ) = 1 := by simp [Sign.apply]
      rw [hone, one_mul, if_neg (by simpa using hpos), if_neg (by simp)]
      exact lt_scale2_iff
    | negative =>
      have hone : ((Sign.negative.apply 1 : ℤ) : ℝ) = -1 := by simp [Sign.apply]
      have hn : (0 : ℝ) ≤ n := by positivity
      rw [hone, if_pos (by simpa using hpos.le)]
      simp only [Bool.false_eq_true, false_iff]
      linarith

theorem value?_of_unpack {hm : 0 < m}
    (h : x.toModel.unpack = .finite .positive m e hm) : value? x = some (m * (2 : ℝ) ^ e) := by
  rw [value?, h, partsValue?]
  simp [Sign.apply]

theorem value?_ofBits_of_unpack {b : UInt64} {hm : 0 < m}
    (h : unpack Format.binary64 b.toBitVec = .finite .positive m e hm) :
    value? (Float.ofBits b) = some (m * (2 : ℝ) ^ e) := by
  refine value?_of_unpack (?_ : _ = UnpackedFloat.finite .positive m e hm)
  change (Float.Model.pack (unpack Format.binary64 b.toBitVec)).unpack = _
  rw [h, unpack_pack_finite (isCanonical_of_unpack h)]

/-- The double whose bits are made of an exponent and a significand. -/
theorem value?_ofBits {k u : ℕ} (hk : k < 2045) (hu : 2 ^ 52 ≤ u) (hu' : u ≤ 2 ^ 53) :
    value? (Float.ofBits (UInt64.ofNat (k * 2 ^ 52 + u)))
      = some (u * (2 : ℝ) ^ ((k : ℤ) - 1074)) := by
  set b := UInt64.ofNat (k * 2 ^ 52 + u) with hb
  have hbits : b.toBitVec.toNat = k * 2 ^ 52 + u := by
    rw [hb, UInt64.toBitVec_ofNat', BitVec.toNat_ofNat]
    omega
  have hsign : Sign.ofBitVec (@unpackSign Format.binary64 b.toBitVec) = .positive := by
    have hzero : @unpackSign Format.binary64 b.toBitVec = 0#1 := by
      have hnat : (k * 2 ^ 52 + u) >>> 63 % 2 ^ 1 = 0 := by
        rw [Nat.shiftRight_eq_div_pow]
        omega
      rw [unpackSign_def, ← BitVec.toNat_inj, BitVec.extractLsb'_toNat, hbits]
      exact hnat
    rw [hzero]
    rfl
  have hfield : field b.toBitVec.toNat = (k * 2 ^ 52 + u) / 2 ^ 52 % 2 ^ 11 := by rw [hbits, field]
  have hfraction : fraction b.toBitVec.toNat = (k * 2 ^ 52 + u) % 2 ^ 52 := by rw [hbits, fraction]
  rcases hu'.lt_or_eq with hlt | rfl
  · have hunpack : unpack Format.binary64 b.toBitVec
        = .finite .positive u ((k : ℤ) - 1074) (by omega) :=
      unpack_eq_finite_iff.mpr ⟨hsign, by omega, .inr ⟨by omega, by omega, by omega⟩⟩
    exact value?_ofBits_of_unpack hunpack
  · -- a carry: the significand is 1 and the exponent the next one
    have hunpack : unpack Format.binary64 b.toBitVec
        = .finite .positive (2 ^ 52) ((k : ℤ) - 1073) (by omega) :=
      unpack_eq_finite_iff.mpr ⟨hsign, by omega, .inr ⟨by omega, by omega, by omega⟩⟩
    rw [value?_ofBits_of_unpack hunpack, show (k : ℤ) - 1073 = k - 1074 + 1 by ring,
      zpow_add_one₀ two_ne_zero]
    push_cast
    ring_nf

theorem roundDiv_bounds (n d : ℕ) : n / d ≤ roundDiv n d ∧ roundDiv n d ≤ n / d + 1 := by
  unfold roundDiv
  dsimp only
  split_ifs <;> omega

/-- A quotient rounded to a significand. -/
theorem roundDiv_significand (num den n : ℕ) (t : ℤ) (hden : 0 < den) (hlow : 2 ^ 52 * den ≤ num)
    (hhigh : num < 2 ^ 53 * den) (hratio : (n : ℝ) * den = num * 2 ^ t) :
    2 ^ 52 ≤ roundDiv num den ∧ roundDiv num den ≤ 2 ^ 53
      ∧ |roundDiv num den * (2 : ℝ) ^ t - n| ≤ 2 ^ t := by
  obtain ⟨hdown, hup⟩ := roundDiv_bounds num den
  have hq := (Nat.le_div_iff_mul_le hden).mpr hlow
  have hq' := (Nat.div_lt_iff_lt_mul hden).mpr hhigh
  refine ⟨by omega, by omega, ?_⟩
  have hpos : (0 : ℝ) < den := by exact_mod_cast hden
  have hn : (n : ℝ) = num / den * 2 ^ t := by
    field_simp
    exact hratio
  have hlt : (num / den : ℝ) < (num / den : ℕ) + 1 := by
    rw [div_lt_iff₀ hpos]
    exact_mod_cast Nat.lt_mul_of_div_lt (Nat.lt_succ_self _) hden
  have hle : ((num / den : ℕ) : ℝ) ≤ num / den := Nat.cast_div_le
  have hdown' : ((num / den : ℕ) : ℝ) ≤ roundDiv num den := by exact_mod_cast hdown
  have hup' : (roundDiv num den : ℝ) ≤ (num / den : ℕ) + 1 := by exact_mod_cast hup
  rw [hn, ← sub_mul, abs_mul, abs_of_pos (show (0 : ℝ) < 2 ^ t by positivity)]
  refine mul_le_of_le_one_left (by positivity) (abs_le.mpr ⟨by linarith, by linarith⟩)

/-- The bits of the double nearest to a positive number: its exponent, and a significand that is off
    by at most one. -/
theorem nearestBits_eq (hn : 0 < n) (hlog : n.log2 < 1000) :
    ∃ u : ℕ, nearestBits n 1 = (n.log2 + 1022) * 2 ^ 52 + u ∧ 2 ^ 52 ≤ u ∧ u ≤ 2 ^ 53
      ∧ |u * (2 : ℝ) ^ ((n.log2 : ℤ) - 52) - n| ≤ 2 ^ ((n.log2 : ℤ) - 52) := by
  have hlow := Nat.log2_self_le hn.ne'
  have hhigh := Nat.lt_log2_self (n := n)
  have hone : Nat.log2 1 = 0 := rfl
  have hlast : Decimal.lastBit n 1 = (n.log2 : ℤ) - 52 := by
    have hreached : (Decimal.Ratio.scale2 1 ((n.log2 : ℤ) - Nat.log2 1)).le ⟨n, 1⟩ = true := by
      simpa [hone, Decimal.Ratio.scale2, Decimal.Ratio.le] using hlow
    rw [Decimal.lastBit, if_pos hreached, hone]
    omega
  have hbits {u : ℕ} (hu : u ≤ 2 ^ 53) :
      min ((n.log2 - 52 + 1074 : ℤ).toNat * Nat.pow 2 52 + u) infinityBits
        = (n.log2 + 1022) * 2 ^ 52 + u := by
    rw [infinityBits, Nat.pow_eq]
    omega
  rw [nearestBits, if_neg hn.ne']
  dsimp only
  rw [hlast]
  split_ifs with hlarge
  · obtain ⟨k, hk⟩ : ∃ k : ℕ, n.log2 = 52 + k := ⟨n.log2 - 52, by omega⟩
    have hshift : ((n.log2 : ℤ) - 52).toNat = k := by omega
    rw [hk, pow_add] at hlow
    rw [hk, show 52 + k + 1 = 53 + k by omega, pow_add] at hhigh
    have hexponent : (n.log2 : ℤ) - 52 = k := by omega
    obtain ⟨hu, hu', herror⟩ := roundDiv_significand n (2 ^ k) n k (by positivity) hlow hhigh
      (by rw [zpow_natCast, Nat.cast_pow, Nat.cast_ofNat])
    rw [hshift, one_mul]
    exact ⟨_, hbits hu', hu, hu', by rwa [hexponent]⟩
  · obtain ⟨k, hk⟩ : ∃ k : ℕ, n.log2 + k = 52 := ⟨52 - n.log2, by omega⟩
    have hshift : (-((n.log2 : ℤ) - 52)).toNat = k := by omega
    have hexponent : (n.log2 : ℤ) - 52 = -k := by omega
    have hscale : 2 ^ n.log2 * 2 ^ k ≤ n * 2 ^ k := Nat.mul_le_mul_right _ hlow
    have hscale' : n * 2 ^ k < 2 ^ (n.log2 + 1) * 2 ^ k :=
      Nat.mul_lt_mul_of_pos_right hhigh (by positivity)
    rw [← pow_add, hk] at hscale
    rw [← pow_add, show n.log2 + 1 + k = 53 by omega] at hscale'
    obtain ⟨hu, hu', herror⟩ := roundDiv_significand (n * 2 ^ k) 1 n (-k) one_pos
      (by rwa [mul_one]) (by rwa [mul_one]) (by push_cast; simp)
    rw [hshift]
    exact ⟨_, hbits hu', hu, hu', by rwa [hexponent]⟩

/-- The double nearest to a whole number. -/
theorem value?_ofNat? (hlog : n.log2 < 1000) :
    ∃ x p, Decimal.ofNat? n = some x ∧ value? x = some p ∧ |p - n| ≤ n / 2 ^ 52
      ∧ (2 ≤ n → 2 ≤ p) := by
  rcases n.eq_zero_or_pos with rfl | hn
  · exact ⟨_, 0, rfl, rfl, by simp, by simp⟩
  · obtain ⟨u, hbits, hu, hu', herror⟩ := nearestBits_eq hn hlog
    have hfinite : nearestBits n 1 ≠ infinityBits := by
      rw [hbits, infinityBits]
      omega
    have hvalue := value?_ofBits (k := n.log2 + 1022) (by omega) hu hu'
    rw [show ((n.log2 + 1022 : ℕ) : ℤ) - 1074 = n.log2 - 52 by push_cast; ring] at hvalue
    have hpow : (2 : ℝ) ^ n.log2 ≤ n := by exact_mod_cast Nat.log2_self_le hn.ne'
    have hunit : (2 : ℝ) ^ ((n.log2 : ℤ) - 52) = 2 ^ n.log2 / 2 ^ 52 := by
      rw [zpow_sub₀ two_ne_zero, zpow_natCast]
      rfl
    refine ⟨Decimal.nearest n 1, _, if_neg hfinite, by rw [Decimal.nearest, hbits, hvalue], ?_, ?_⟩
    · refine herror.trans ?_
      rw [hunit]
      gcongr
    · intro htwo
      have hu : (2 ^ 52 : ℝ) ≤ u := by exact_mod_cast hu
      have hlog : 1 ≤ n.log2 := (Nat.le_log2 hn.ne').mpr htwo
      calc (2 : ℝ) ≤ 2 ^ n.log2 := le_self_pow₀ one_le_two (by omega)
        _ = 2 ^ 52 * (2 ^ n.log2 / 2 ^ 52) := by field_simp
        _ ≤ u * 2 ^ ((n.log2 : ℤ) - 52) := by rw [hunit]; gcongr

/-! ### Logarithms -/

attribute [local instance] atLeastTwo_two in
/-- A logarithm of doubles that is off by at most a unit in the last place.  Such a unit is at most
    the result divided by `2 ^ 52`, or by `2 ^ 51` where the exact result has another exponent. -/
def IsAccurateLog (log : Float → Float) : Prop :=
  ∀ x v, value? x = some v → 2 ≤ v →
    ∃ l, value? (log x) = some l ∧ |l - Real.log v| ≤ Real.log v / 2 ^ 51

variable {log : Float → Float}

theorem abs_log_sub_log_le {p n : ℝ} (hn : 0 < n) (h : |p - n| ≤ n / 2 ^ 52) :
    |Real.log p - Real.log n| ≤ 1 / 2 ^ 51 := by
  obtain ⟨hlow, hhigh⟩ := abs_le.mp h
  have hp : n / 2 ≤ p := by linarith
  have hpos : 0 < p := by linarith
  have hup : Real.log p - Real.log n ≤ 1 / 2 ^ 51 := by
    rw [← Real.log_div hpos.ne' hn.ne']
    refine (Real.log_le_sub_one_of_pos (by positivity)).trans ?_
    rw [sub_le_iff_le_add, div_le_iff₀ hn]
    linarith
  have hdown : Real.log n - Real.log p ≤ 1 / 2 ^ 51 := by
    rw [← Real.log_div hn.ne' hpos.ne']
    refine (Real.log_le_sub_one_of_pos (by positivity)).trans ?_
    rw [sub_le_iff_le_add, div_le_iff₀ hpos]
    linarith
  exact abs_le.mpr ⟨by linarith, hup⟩

theorem half_lt_log (hn : 2 ≤ n) : 1 / 2 < Real.log n := by
  have htwo : Real.log 2 ≤ Real.log n := Real.log_le_log (by norm_num) (by exact_mod_cast hn)
  linarith [Real.log_two_gt_d9]

/-- The natural logarithm of a whole number. -/
theorem value?_naturalLog (hlog : IsAccurateLog log) (hn : 1 ≤ n) (hsize : n.log2 < 1000) :
    ∃ x l, Recurrence.naturalLog log n = .ok x ∧ value? x = some l
      ∧ |l - Real.log n| ≤ Real.log n / 2 ^ 49 := by
  unfold Recurrence.naturalLog
  rw [if_neg (by omega)]
  rcases hn.eq_or_lt with rfl | hn
  · exact ⟨0.0, 0, rfl, rfl, by simp⟩
  · obtain ⟨x, p, hx, hp, herror, htwo⟩ := value?_ofNat? hsize
    obtain ⟨l, hl, hlerror⟩ := hlog x p hp (htwo hn)
    rw [if_neg (by omega), hx]
    refine ⟨_, l, rfl, hl, ?_⟩
    have hnlog := half_lt_log hn
    have hplog := abs_log_sub_log_le (by positivity) herror
    rw [abs_le] at *
    constructor <;> linarith

theorem logb_mem (ha : 1 ≤ a) (hb : 2 ≤ b) (hsize : a.log2 < 1000) :
    0 ≤ Real.logb b a ∧ Real.logb b a ≤ 1000 := by
  have hbase : Real.log 2 ≤ Real.log b := Real.log_le_log (by norm_num) (by exact_mod_cast hb)
  have htwo : 0 < Real.log 2 := Real.log_pos one_lt_two
  have hpow : (a : ℝ) ≤ 2 ^ (a.log2 + 1) := by exact_mod_cast Nat.lt_log2_self.le
  have hexponent : ((a.log2 + 1 : ℕ) : ℝ) ≤ 1000 := by exact_mod_cast hsize
  refine ⟨Real.logb_nonneg (by exact_mod_cast hb) (by exact_mod_cast ha), ?_⟩
  rw [Real.logb, div_le_iff₀ (htwo.trans_le hbase)]
  calc Real.log a ≤ (a.log2 + 1 : ℕ) * Real.log 2 := by
        rw [← Real.log_pow]
        exact Real.log_le_log (by exact_mod_cast ha) hpow
    _ ≤ 1000 * Real.log b := by gcongr

/-- The logarithm of a whole number to a base. -/
theorem value?_logBaseBy (hlog : IsAccurateLog log) (ha : 1 ≤ a) (hb : 2 ≤ b)
    (hasize : a.log2 < 1000) (hbsize : b.log2 < 1000) :
    ∃ x r, Recurrence.logBaseBy log b a = .ok x ∧ value? x = some r
      ∧ |r - Real.logb b a| ≤ 1 / 10 ^ 10 := by
  obtain ⟨x, l, hx, hl, hlerror⟩ := value?_naturalLog hlog ha hasize
  obtain ⟨y, k, hy, hk, hkerror⟩ := value?_naturalLog hlog (by omega : 1 ≤ b) hbsize
  obtain ⟨hnonneg, hmost⟩ := logb_mem ha hb hasize
  have hbase := half_lt_log hb
  have hproduct : Real.log a = Real.logb b a * Real.log b := by
    rw [Real.logb, div_mul_cancel₀ _ (by linarith)]
  set L := Real.logb b a with hL
  set B := Real.log b with hB
  have hkpos : B / 2 ≤ k := by
    rw [abs_le] at hkerror
    linarith
  -- both logarithms are off by a factor, so their quotient is
  have hquotient : |l / k - L| ≤ 1 / 10 ^ 11 := by
    have hdiff : |l - L * k| ≤ 2 * (L * B / 2 ^ 49) := by
      have hsplit : l - L * k = (l - Real.log a) - L * (k - B) := by rw [hproduct]; ring
      calc |l - L * k| ≤ |l - Real.log a| + L * |k - B| := by
            rw [hsplit, ← abs_of_nonneg hnonneg, ← abs_mul, abs_of_nonneg hnonneg]
            exact abs_sub _ _
        _ ≤ Real.log a / 2 ^ 49 + L * (B / 2 ^ 49) := by gcongr
        _ = 2 * (L * B / 2 ^ 49) := by rw [hproduct]; ring
    have hk : 0 < k := by linarith
    rw [show l / k - L = (l - L * k) / k by field_simp, abs_div, abs_of_pos hk, div_le_iff₀ hk]
    calc |l - L * k| ≤ 2 * (L * B / 2 ^ 49) := hdiff
      _ ≤ 2 * (1000 * B / 2 ^ 49) := by gcongr
      _ ≤ 1 / 10 ^ 11 * k := by linarith
  obtain ⟨hlow, hhigh⟩ := abs_le.mp hquotient
  have hsmall : |l / k| ≤ 1001 := abs_le.mpr ⟨by linarith, by linarith⟩
  obtain ⟨r, hr, hrerror⟩ := value?_div hl hk (by linarith) (lt_limit 10 (by decide)
    (hsmall.trans_lt (by norm_num)))
  have hnonzero : (y == 0.0) = false := by
    rw [Bool.eq_false_iff, Ne, beq_iff hk (show value? 0.0 = some 0 from rfl)]
    linarith
  refine ⟨x / y, r, ?_, hr, ?_⟩
  · simp only [Recurrence.logBaseBy, hx, hy, bind, Except.bind, hnonzero, Bool.false_eq_true,
      if_false]
  · have hleast : least ≤ 1 / 10 ^ 12 := least_le 40 (by decide) (by norm_num)
    linarith [abs_sub_le r (l / k) L]

/-! ### An accurate logarithm -/

attribute [local instance] atLeastTwo_two in
/-- A logarithm of doubles: the exact one, cut to 60 places after the point and rounded. -/
noncomputable def roundedLog (x : Float) : Float :=
  match value? x with
  | some v => ⟨Float.Model.pack
      (roundWithAccuracy Format.binary64 .positive ⌊Real.log v * 2 ^ 60⌋₊ (-60) .exact)⟩
  | none => x

theorem lt_two_mul_limit {v : ℝ} (hx : value? x = some v) : v < 2 * limit := by
  have hlimit := lt_limit 0 (by decide) (by norm_num : (0 : ℝ) < 2 ^ 0)
  obtain ⟨-, rfl⟩ | ⟨s, m, e, hm, hu, rfl⟩ := partsValue?_eq_some hx
  · linarith
  · obtain ⟨hbounded, -, hmost, -⟩ := isCanonical_of_unpack hu
    have hm : (m : ℝ) < 2 ^ 53 := by exact_mod_cast hbounded
    have habs : |((s.apply 1 : ℤ) : ℝ) * (m * 2 ^ e)| = m * 2 ^ e := by
      rw [abs_mul, abs_apply_one, one_mul, abs_of_nonneg (by positivity)]
    calc (s.apply 1 * (m * 2 ^ e) : ℝ) ≤ m * 2 ^ e := (le_abs_self _).trans habs.le
      _ < 2 ^ 53 * 2 ^ e := by gcongr
      _ ≤ 2 ^ 53 * 2 ^ (971 : ℤ) := by
          gcongr
          exact one_le_two
      _ = 2 * limit := by
          rw [limit, ← zpow_one_add₀ two_ne_zero, ← zpow_natCast, ← zpow_add₀ two_ne_zero]
          rfl

theorem isAccurateLog_roundedLog : IsAccurateLog roundedLog := by
  intro x v hx hv
  have htwo : Real.log 2 ≤ Real.log v := Real.log_le_log (by norm_num) hv
  have hhalf : 1 / 2 < Real.log v := by linarith [Real.log_two_gt_d9]
  set m := ⌊Real.log v * 2 ^ 60⌋₊ with hm
  have hpow : (2 : ℝ) ^ (-60 : ℤ) = 1 / 2 ^ 60 := by norm_num
  have hlow : m * 2 ^ (-60 : ℤ) ≤ Real.log v := by
    rw [hpow, mul_one_div, div_le_iff₀ (by positivity)]
    exact Nat.floor_le (by positivity)
  have hhigh : Real.log v ≤ (m + 1) * 2 ^ (-60 : ℤ) := by
    rw [hpow, mul_one_div, le_div_iff₀ (by positivity)]
    exact (Nat.lt_floor_add_one _).le
  have htarget : -60 ≤ target m (-60) := by
    have hfull : 2 ^ 52 ≤ m := Nat.le_floor (by push_cast; linarith)
    have hbits := (Nat.le_log2 (by omega)).mpr hfull
    rw [target_eq]
    omega
  have hlimit : Real.log v < limit := by
    have hsplit : Real.log v = Real.log (v / 2) + Real.log 2 := by
      rw [Real.log_div (by linarith) two_ne_zero, sub_add_cancel]
    linarith [Real.log_le_sub_one_of_pos (by linarith : 0 < v / 2), Real.log_two_lt_d9,
      lt_two_mul_limit hx]
  obtain ⟨l, hl, herror⟩ :=
    isRounded_roundWithAccuracy htarget hlow hhigh hlimit .positive .exact
  have hleast : least ≤ 1 / 2 ^ 53 := least_le 53 (by decide) le_rfl
  refine ⟨l, ?_, ?_⟩
  · rw [roundedLog, hx]
    exact hl
  · have hone : ((Sign.positive.apply 1 : ℤ) : ℝ) = 1 := by simp [Sign.apply]
    rw [hone, one_mul, abs_of_pos (by linarith : 0 < Real.log v)] at herror
    linarith

end Ordo.Double
