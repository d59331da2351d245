import Mathlib

namespace Ordo.Double

open Float.Model (Format UnpackedFloat)
open Float.Model.UnpackedFloat

/-!
# Doubles as numbers

A finite double stands for `± m * 2 ^ e`, where `m` has 53 bits unless `e` is the least exponent.
Its parts can be read from its bits, nothing of them is lost when they are packed again, and
doubles compare as the numbers that they stand for.

* `value?` — the number that a double stands for;
* `IsCanonical`, `unpack_eq_finite_iff` — the parts of finite doubles, and where they are in the
  bits;
* `unpack_pack_finite` — packing parts loses nothing;
* `compare_eq`, `lt_iff`, `le_iff`, `beq_iff`, `value?_abs` — comparison and absolute value.
-/

/-! ### Values -/

/-- The fact behind the numeral `2`, by one name in all definitions. -/
theorem atLeastTwo_two : Nat.AtLeastTwo 2 := inferInstance

attribute [local instance] atLeastTwo_two in
/-- The number that the parts of a double stand for, if it is finite. -/
noncomputable def partsValue? : UnpackedFloat → Option ℝ
  | .zero _ => some 0
  | .finite s m e _ => some (s.apply 1 * (m * 2 ^ e))
  | _ => none

/-- The number that a double stands for, if it is finite. -/
noncomputable def value? (x : Float) : Option ℝ := partsValue? x.toModel.unpack

variable {p q : ℝ} {b : BitVec 64} {x y : Float}

theorem partsValue?_eq_some {u : UnpackedFloat} (h : partsValue? u = some p) :
    (∃ s, u = .zero s) ∧ p = 0
      ∨ ∃ s m e hm, u = .finite s m e hm ∧ p = s.apply 1 * (m * 2 ^ e) := by
  cases u with
  | zero s => exact .inl ⟨⟨s, rfl⟩, (Option.some.inj h).symm⟩
  | finite s m e hm => exact .inr ⟨s, m, e, hm, rfl, (Option.some.inj h).symm⟩
  | _ => cases h

theorem abs_apply_one (s : Sign) : |((s.apply 1 : ℤ) : ℝ)| = 1 := by
  cases s <;> simp [Sign.apply]

/-! ### Parts -/

/-- The significands and exponents of finite doubles: 53 bits, or fewer for the least exponent. -/
structure IsCanonical (m : ℕ) (e : ℤ) : Prop where
  bounded : m < 2 ^ 53
  least : -1074 ≤ e
  most : e ≤ 971
  full : 2 ^ 52 ≤ m ∨ e = -1074

variable {s : Sign} {m : ℕ} {e : ℤ}

attribute [local simp] Sign.apply

theorem toNat_append_one (v : BitVec 52) : (1#1 ++ v).toNat = 2 ^ 52 + v.toNat := by
  rw [BitVec.toNat_append, ← Nat.shiftLeft_add_eq_or_of_lt v.isLt]
  rfl

/-- The exponent field of the bits of a double. -/
def field (bits : ℕ) : ℕ := bits / 2 ^ 52 % 2 ^ 11

/-- The fraction field of the bits of a double. -/
def fraction (bits : ℕ) : ℕ := bits % 2 ^ 52

theorem toNat_unpackExponent (b : BitVec 64) :
    (@unpackExponent Format.binary64 b).toNat = field b.toNat := by
  rw [unpackExponent_def, BitVec.extractLsb'_toNat, Nat.shiftRight_eq_div_pow]
  rfl

theorem toNat_unpackMantissa (b : BitVec 64) :
    (@unpackMantissa Format.binary64 b).toNat = fraction b.toNat := by
  rw [unpackMantissa_def, BitVec.extractLsb'_toNat, Nat.shiftRight_zero]
  rfl

/-- The parts of a finite double, by its fields. -/
theorem unpack_eq_finite_iff {hm : 0 < m} : unpack Format.binary64 b = .finite s m e hm ↔
      Sign.ofBitVec (@unpackSign Format.binary64 b) = s ∧ field b.toNat ≠ 2047
      ∧ (field b.toNat = 0 ∧ m = fraction b.toNat ∧ e = -1074
        ∨ field b.toNat ≠ 0 ∧ m = 2 ^ 52 + fraction b.toNat ∧ e = field b.toNat - 1075) := by
  have hfull : @unpackExponent Format.binary64 b = -1#11 ↔ field b.toNat = 2047 := by
    rw [← BitVec.toNat_inj, toNat_unpackExponent]
    rfl
  have hnone : @unpackExponent Format.binary64 b = 0#11 ↔ field b.toNat = 0 := by
    rw [← BitVec.toNat_inj, toNat_unpackExponent]
    rfl
  have hzero : @unpackMantissa Format.binary64 b = 0#52 ↔ fraction b.toNat = 0 := by
    rw [← BitVec.toNat_inj, toNat_unpackMantissa]
    rfl
  have hbias : Format.binary64.exponentBias = 1023 := rfl
  unfold unpack
  dsimp only
  split_ifs with hend hinfinite hsubnormal hnull
  · simp [hfull.mp hend]
  · simp [hfull.mp hend]
  · simp only [hnone.mp hsubnormal, hzero.mp hnull]
    simp
    omega
  · have hfield := hnone.mp hsubnormal
    simp only [finite.injEq, toNat_unpackMantissa, toNat_unpackExponent, hbias]
    exact and_congr_right fun _ => by omega
  · have hfield := mt hnone.mpr hsubnormal
    have hfinite := mt hfull.mpr hend
    simp only [finite.injEq, toNat_append_one, toNat_unpackMantissa, toNat_unpackExponent, hbias]
    exact and_congr_right fun _ => by omega

theorem field_lt (bits : ℕ) : field bits < 2 ^ 11 := Nat.mod_lt _ (by decide)

theorem fraction_lt (bits : ℕ) : fraction bits < 2 ^ 52 := Nat.mod_lt _ (by decide)

/-- The parts of a finite double are canonical. -/
theorem isCanonical_of_unpack {hm : 0 < m}
    (h : unpack Format.binary64 b = .finite s m e hm) : IsCanonical m e := by
  obtain ⟨-, hfinite, hparts⟩ := unpack_eq_finite_iff.mp h
  have hfield := field_lt b.toNat
  have hfraction := fraction_lt b.toNat
  constructor <;> omega

/-- The bits of canonical parts. -/
theorem pack_finite (h : IsCanonical m e) (hm : 0 < m) : pack Format.binary64 (.finite s m e hm)
      = packComponents Format.binary64 s
          (BitVec.ofNat 11 (if 2 ^ 52 ≤ m then (e + 1075).toNat else 0)) (BitVec.ofNat 52 m) := by
  obtain ⟨hbounded, hleast, hmost, -⟩ := h
  have hbits : m.log2 + 1 = Format.binary64.mantissaBits ↔ 2 ^ 52 ≤ m := by
    have hlower := Nat.le_log2 (k := 52) hm.ne'
    have hupper := (Nat.log2_lt (k := 53) hm.ne').mpr hbounded
    change m.log2 + 1 = 53 ↔ _
    omega
  have hbiased : (e + (Format.binary64.exponentBias : ℕ)
      + (Format.binary64.mantissaBitsWithoutImplicit : ℕ)).toNat = (e + 1075).toNat := by
    change (e + (1023 : ℕ) + (52 : ℕ)).toNat = _
    omega
  have hfits : ¬2 ^ Format.binary64.exponentBits ≤ (e + 1075).toNat + 1 := by
    change ¬2 ^ 11 ≤ _
    omega
  unfold pack
  dsimp only
  rw [hbiased, if_neg hfits]
  by_cases hnormal : 2 ^ 52 ≤ m
  · rw [if_pos (hbits.mpr hnormal), if_pos hnormal]
  · rw [if_neg (mt hbits.mp hnormal), if_neg hnormal]

/-- Packing loses nothing of canonical parts. -/
theorem unpack_pack_finite (h : IsCanonical m e) (hm : 0 < m) :
    (Float.Model.pack (.finite s m e hm)).unpack = .finite s m e hm := by
  change unpack Format.binary64 (pack Format.binary64 (.finite s m e hm)) = _
  rw [unpack_eq_finite_iff, pack_finite h, ← toNat_unpackExponent, ← toNat_unpackMantissa,
    unpackSign_packComponents, unpackExponent_packComponents, unpackMantissa_packComponents,
    Sign.ofBitVec_toBitVec]
  obtain ⟨hbounded, hleast, hmost, hfull⟩ := h
  refine ⟨rfl, ?_⟩
  simp only [BitVec.toNat_ofNat]
  split_ifs with hnormal <;> omega

theorem unpack_pack_zero (s : Sign) : (Float.Model.pack (.zero s)).unpack = .zero s := by
  cases s <;> rfl

/-! ### Comparison -/

/-- Canonical parts are in the order of their exponents, then of their significands. -/
theorem compare_parts {m' : ℕ} {e' : ℤ} (h : IsCanonical m e) (h' : IsCanonical m' e') :
    (compare e e').then (compare m m') = compare (m * 2 ^ e : ℝ) (m' * 2 ^ e') := by
  have hlt {m m' : ℕ} {e e' : ℤ} (h : IsCanonical m e) (h' : IsCanonical m' e') (he : e < e') :
      (m * 2 ^ e : ℝ) < m' * 2 ^ e' := by
    have hm : (m : ℝ) < 2 ^ 53 := by exact_mod_cast h.bounded
    have hm' : (2 ^ 52 : ℝ) ≤ m' := by
      exact_mod_cast h'.full.resolve_right (by linarith [h.least])
    calc (m * 2 ^ e : ℝ) < 2 ^ 53 * 2 ^ e := by gcongr
      _ = 2 ^ 52 * 2 ^ (e + 1) := by rw [zpow_add_one₀ two_ne_zero]; ring
      _ ≤ m' * 2 ^ e' := by
          gcongr
          · exact one_le_two
          · omega
  rcases lt_trichotomy e e' with he | rfl | he
  · rw [compare_lt_iff_lt.mpr he, compare_lt_iff_lt.mpr (hlt h h' he)]
    rfl
  · rw [compare_eq_iff_eq.mpr rfl, Ordering.then]
    have hpos : (0 : ℝ) < 2 ^ e := by positivity
    rcases lt_trichotomy m m' with hm | rfl | hm
    · rw [compare_lt_iff_lt.mpr hm, eq_comm, compare_lt_iff_lt]
      gcongr
    · rw [compare_eq_iff_eq.mpr rfl, compare_eq_iff_eq.mpr rfl]
    · rw [compare_gt_iff_gt.mpr hm, eq_comm, compare_gt_iff_gt]
      gcongr
  · rw [compare_gt_iff_gt.mpr he, compare_gt_iff_gt.mpr (hlt h' h he)]
    rfl

theorem compare_neg_neg (p q : ℝ) : compare (-p) (-q) = compare q p := by
  rcases lt_trichotomy p q with h | rfl | h
  · rw [compare_gt_iff_gt.mpr h, compare_gt_iff_gt.mpr (neg_lt_neg h)]
  · rw [compare_eq_iff_eq.mpr rfl, compare_eq_iff_eq.mpr rfl]
  · rw [compare_lt_iff_lt.mpr h, compare_lt_iff_lt.mpr (neg_lt_neg h)]

/-- Finite doubles compare as their values do. -/
theorem compare_eq (hx : value? x = some p) (hy : value? y = some q) :
    x.toModel.unpack.compare y.toModel.unpack = some (compare p q) := by
  obtain ⟨⟨s, hu⟩, rfl⟩ | ⟨s, m, e, hm, hu, rfl⟩ := partsValue?_eq_some hx <;>
    obtain ⟨⟨s', hw⟩, rfl⟩ | ⟨s', m', e', hm', hw, rfl⟩ := partsValue?_eq_some hy <;>
    rw [hu, hw]
  · rw [compare_eq_iff_eq.mpr rfl]
    rfl
  · have hpos : (0 : ℝ) < m' * 2 ^ e' := by positivity
    cases s' with
    | positive =>
      rw [compare_lt_iff_lt.mpr (by simpa using hpos)]
      rfl
    | negative =>
      rw [compare_gt_iff_gt.mpr (by simpa using hpos)]
      rfl
  · have hpos : (0 : ℝ) < m * 2 ^ e := by positivity
    cases s with
    | positive =>
      rw [compare_gt_iff_gt.mpr (by simpa using hpos)]
      rfl
    | negative =>
      rw [compare_lt_iff_lt.mpr (by simpa using hpos)]
      rfl
  · have hpos : (0 : ℝ) < m * 2 ^ e := by positivity
    have hpos' : (0 : ℝ) < m' * 2 ^ e' := by positivity
    have hparts := compare_parts (isCanonical_of_unpack hu) (isCanonical_of_unpack hw)
    cases s <;> cases s' <;> simp only [Sign.apply, Int.cast_neg, Int.cast_one, neg_mul, one_mul]
    · rw [compare_neg_neg, Std.OrientedOrd.eq_swap, ← hparts]
      rfl
    · rw [compare_lt_iff_lt.mpr (by linarith)]
      rfl
    · rw [compare_gt_iff_gt.mpr (by linarith)]
      rfl
    · rw [← hparts]
      rfl

theorem lt_iff (hx : value? x = some p) (hy : value? y = some q) : x < y ↔ p < q := by
  rw [← compare_lt_iff_lt, ← Option.some_inj, ← compare_eq hx hy, ← beq_iff_eq]
  exact decide_eq_true_iff

theorem le_iff (hx : value? x = some p) (hy : value? y = some q) : x ≤ y ↔ p ≤ q := by
  have hle : x ≤ y ↔ (x.toModel.unpack.compare y.toModel.unpack).any (·.isLE) = true :=
    decide_eq_true_iff
  rw [hle, compare_eq hx hy, Option.any_some, Ordering.isLE_iff_ne_gt]
  exact compare_le_iff_le

theorem beq_iff (hx : value? x = some p) (hy : value? y = some q) : (x == y) = true ↔ p = q := by
  have hbeq : (x == y) = (x.toModel.unpack.compare y.toModel.unpack == some .eq) := rfl
  rw [hbeq, beq_iff_eq, compare_eq hx hy, Option.some_inj, compare_eq_iff_eq]

theorem value?_abs (hx : value? x = some p) : value? x.abs = some |p| := by
  change partsValue? (Float.Model.pack x.toModel.unpack.abs).unpack = _
  obtain ⟨⟨s, hu⟩, rfl⟩ | ⟨s, m, e, hm, hu, rfl⟩ := partsValue?_eq_some hx <;> rw [hu]
  · rw [abs_zero]
    exact congrArg partsValue? (unpack_pack_zero .positive)
  · have hpos : (0 : ℝ) ≤ m * 2 ^ e := by positivity
    rw [abs_mul, abs_apply_one, one_mul, abs_of_nonneg hpos, UnpackedFloat.abs,
      unpack_pack_finite (isCanonical_of_unpack hu), partsValue?]
    simp

end Ordo.Double
