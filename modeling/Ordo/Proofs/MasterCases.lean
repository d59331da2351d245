import Ordo.Proofs.CacheKeys
import Ordo.Proofs.CaseMargins
import Ordo.Proofs.Logarithms
import Ordo.Proofs.Recurrences

namespace Ordo.Recurrence

open Double Text Text.Template

/-!
# Cases of the master theorem

The case of `T(n) = aT(n/b) + O(f)` depends on how the order of `f` compares with the logarithm of
`a` to the base `b`.  The comparison is made in doubles and within a margin, and a logarithm in `f`
counts as a half, as a tenth or not at all.

* `CostOrder.IsClear`, `Comparison.caseOf_double` — away from the margins rounding decides nothing;
* `Writes`, `read_powerText` — the costs `n^k` and `n^k log n`, and the orders that are read;
* `Case.IsRight`, `CostOrder.Misleads` — the right cases, and where the comparison is misleading;
* `Master.case_right_iff` — when the case that is reported is the right one.
-/

open List String

/-! ### The comparison in doubles -/

theorem value?_margin : ∃ r, value? margin = some r ∧ |r - 1 / 100| ≤ 1 / 10 ^ 15 := by
  have hparts : margin.toModel.unpack = .finite .positive 5764607523034235 (-59) (by decide) := rfl
  exact ⟨_, value?_of_unpack hparts, by norm_num⟩

namespace CostOrder

/-- That an order is no exponent beyond all doubles. -/
def IsSmall : CostOrder → Prop
  | whole k => k.log2 < 1000
  | _ => True

/-- The order of a cost as a double. -/
theorem value?_toFloat {o : CostOrder} (ho : o.IsSmall) :
    ∃ y q, o.toFloat = .ok y ∧ value? y = some q
      ∧ |q - o.exponent| ≤ o.exponent / 2 ^ 52 := by
  cases o with
  | whole k =>
    obtain ⟨y, q, hy, hq, herror, -⟩ := value?_ofNat? ho
    exact ⟨y, q, by rw [toFloat, hy], hq, herror⟩
  | logarithm =>
    have hparts : (0.5 : Float).toModel.unpack
        = .finite .positive 4503599627370496 (-53) (by decide) := rfl
    exact ⟨_, _, rfl, value?_of_unpack hparts, by norm_num [exponent]⟩
  | linearithm =>
    have hparts : (1.1 : Float).toModel.unpack
        = .finite .positive 4953959590107546 (-52) (by decide) := rfl
    exact ⟨_, _, rfl, value?_of_unpack hparts, by norm_num [exponent]⟩

theorem exponent_nonneg (o : CostOrder) : 0 ≤ (o.exponent : ℝ) := by
  cases o <;> simp only [exponent] <;> positivity

theorem exponent_lt {o : CostOrder} (ho : o.IsSmall) : 8 * (o.exponent : ℝ) < limit := by
  cases o with
  | whole k =>
    have hk : (k : ℝ) < 2 ^ (k.log2 + 1) := by exact_mod_cast Nat.lt_log2_self
    refine lt_limit (k.log2 + 4) (by simp only [IsSmall] at ho; omega) ?_
    rw [exponent, show k.log2 + 4 = 3 + (k.log2 + 1) by ring, pow_add]
    linarith
  | _ => exact lt_limit 4 (by decide) (by norm_num [exponent])

/-- Whether the order of a cost is below a double. -/
theorem isBelow_iff (o : CostOrder) : ∃ q : ℝ, |q - o.exponent| ≤ 1 / 10 ^ 15
      ∧ ∀ {y d}, value? y = some d → (o.isBelow y = true ↔ q < d) := by
  cases o with
  | whole k => exact ⟨k, by simp [exponent], fun hy => natBelow_iff hy k⟩
  | logarithm =>
    obtain ⟨y, q, hy, hq, herror⟩ := value?_toFloat (o := .logarithm) trivial
    obtain rfl := Except.ok.inj hy
    refine ⟨q, herror.trans (by norm_num [exponent]), fun hd => ?_⟩
    rw [isBelow, decide_eq_true_iff, lt_iff hq hd]
  | linearithm =>
    obtain ⟨y, q, hy, hq, herror⟩ := value?_toFloat (o := .linearithm) trivial
    obtain rfl := Except.ok.inj hy
    refine ⟨q, herror.trans (by norm_num [exponent]), fun hd => ?_⟩
    rw [isBelow, decide_eq_true_iff, lt_iff hq hd]

/-- The facts behind the numerals `10` and `100`, by one name in all definitions. -/
theorem atLeastTwo_ten : Nat.AtLeastTwo 10 := inferInstance

theorem atLeastTwo_hundred : Nat.AtLeastTwo 100 := inferInstance

attribute [local instance] atLeastTwo_ten atLeastTwo_hundred in
/-- That an exponent is not where rounding decides: by more than `1 / 10 ^ 9` off the margins. -/
def IsClear (o : CostOrder) (x : ℝ) : Prop :=
  1 / 10 ^ 9 < |x - (o.exponent + 1 / 100)| ∧ 1 / 10 ^ 9 < |x - (o.exponent - 1 / 100)|

end CostOrder

section Double

variable {x : Float} {r L : ℝ} {o : CostOrder}

/-- Whether an order is below an exponent by more than the margin. -/
theorem isBelow_sub_margin (hx : value? x = some r) (hr : |r - L| ≤ 1 / 10 ^ 10) (hlow : 0 ≤ L)
    (hhigh : L ≤ 1000) (o : CostOrder) : ∃ d : ℝ, (o.isBelow (x - margin) = true ↔ o.exponent < d)
      ∧ |d - (L - 1 / 100)| ≤ 3 / 10 ^ 10 := by
  obtain ⟨u, hu, huerror⟩ := value?_margin
  obtain ⟨q, hq, hbelow⟩ := o.isBelow_iff
  have hbound : |r - u| ≤ 1001 := by
    rw [abs_le] at *
    constructor <;> linarith
  obtain ⟨d, hd, hderror⟩ := value?_sub hx hu (lt_limit 10 (by decide)
    (hbound.trans_lt (by norm_num)))
  have hleast : least ≤ 1 / 10 ^ 12 := least_le 40 (by decide) (by norm_num)
  replace hderror : |d - (r - u)| ≤ 1 / 10 ^ 10 := by linarith
  refine ⟨d - (q - o.exponent), by rw [hbelow hd, lt_sub_comm, sub_lt_sub_iff_right], ?_⟩
  rw [abs_le] at *
  constructor <;> linarith

/-- Whether an order is within the margin of an exponent. -/
theorem isNear_double (hx : value? x = some r) (hr : |r - L| ≤ 1 / 10 ^ 10) (hlow : 0 ≤ L)
    (hhigh : L ≤ 1000) (ho : o.IsSmall) :
    ∃ (near : Bool) (d u : ℝ), Comparison.double.isNear o x = .ok near
      ∧ (near = true ↔ |d| < u) ∧ |u - 1 / 100| ≤ 1 / 10 ^ 15
      ∧ |d - (o.exponent - L)| ≤ |o.exponent - L| / 2 ^ 50 + 3 / 10 ^ 10 := by
  obtain ⟨u, hu, huerror⟩ := value?_margin
  obtain ⟨y, q, hy, hq, hqerror⟩ := CostOrder.value?_toFloat ho
  have hdistance : |q - r - (o.exponent - L)| ≤ o.exponent / 2 ^ 52 + 1 / 10 ^ 10 := by
    rw [sub_sub_sub_comm]
    exact (abs_sub _ _).trans (add_le_add hqerror hr)
  have hsize : |q - r| ≤ |o.exponent - L| + (o.exponent / 2 ^ 52 + 1 / 10 ^ 10) := by
    linarith [abs_sub_abs_le_abs_sub (q - r) (o.exponent - L)]
  have hlimit : |q - r| < limit := by
    have hsmall := lt_limit 20 (by decide) (by norm_num : (2000 : ℝ) < 2 ^ 20)
    have hbound : |o.exponent - L| ≤ o.exponent + 1000 :=
      abs_le.mpr ⟨by linarith [o.exponent_nonneg], by linarith⟩
    linarith [o.exponent_nonneg, CostOrder.exponent_lt ho]
  obtain ⟨d, hd, hderror⟩ := value?_sub hq hx hlimit
  refine ⟨decide ((y - x).abs < margin), d, u, ?_, ?_, huerror, ?_⟩
  · simp only [Comparison.double, hy, bind, Except.bind]
    rfl
  · rw [decide_eq_true_iff, lt_iff (value?_abs hd) hu]
  · have hleast : least ≤ 1 / 10 ^ 12 := least_le 40 (by decide) (by norm_num)
    have horder : o.exponent ≤ |o.exponent - L| + 1000 := by linarith [le_abs_self (o.exponent - L)]
    linarith [abs_sub_le d (q - r) (o.exponent - L), abs_nonneg (o.exponent - L)]

/-- **The case in doubles** is that without rounding, unless the exponent is close to a margin. -/
theorem Comparison.caseOf_double (hx : value? x = some r) (hr : |r - L| ≤ 1 / 10 ^ 10)
    (hlow : 0 ≤ L) (hhigh : L ≤ 1000) (ho : o.IsSmall) :
    ∃ c, double.caseOf o x = .ok c ∧ (c = .one → o.exponent < L)
      ∧ (o.IsClear L → c = o.caseAt L) := by
  obtain ⟨d, hbelow, hderror⟩ := isBelow_sub_margin hx hr hlow hhigh o
  obtain ⟨near, f, u, hnear, hf, huerror, hferror⟩ := isNear_double hx hr hlow hhigh ho
  refine ⟨_, caseOf_of_answers (c := double) rfl hnear, ?_, ?_⟩
  · intro hone
    have hlt : o.exponent < d := by
      by_contra hle
      rw [if_neg (mt hbelow.mp hle)] at hone
      split at hone <;> cases hone
    rw [abs_le] at hderror
    linarith
  · rintro ⟨habove, hunder⟩
    have hfirst : o.isBelow (x - margin) = true ↔ o.exponent < L - 1 / 100 := by
      rw [hbelow]
      rw [abs_le] at hderror
      rcases lt_abs.mp habove with h | h <;> constructor <;> intro <;> linarith
    have hsecond : near = true ↔ |o.exponent - L| < 1 / 100 := by
      have hclear : 1 / 10 ^ 9 < |(|o.exponent - L|) - 1 / 100| := by
        rcases abs_cases (o.exponent - L) with ⟨h, -⟩ | ⟨h, -⟩ <;> rw [h]
        · rwa [abs_sub_comm, show 1 / 100 - (o.exponent - L) = L - (o.exponent - 1 / 100) by ring]
        · rwa [show -(o.exponent - L) - 1 / 100 = L - (o.exponent + 1 / 100) by ring]
      have hdown := abs_sub_abs_le_abs_sub f (o.exponent - L)
      have hup := abs_sub_abs_le_abs_sub (o.exponent - L) f
      rw [abs_sub_comm (o.exponent - L) f] at hup
      rw [hf]
      rw [abs_le] at huerror
      rcases lt_abs.mp hclear with h | h <;> constructor <;> intro <;> linarith
    rw [CostOrder.caseAt]
    simp only [hfirst, hsecond]

end Double

/-! ### Costs -/

/-- A logarithm as a factor. -/
def logFactor : List Char := [' ', 'l', 'o', 'g', ' ', 'n']

/-- The text `n^k`, and what follows it. -/
def powerText (k : ℕ) (rest : List Char) : String :=
  ofList ('n' :: '^' :: (Nat.toDigits 10 k ++ rest))

/-- The texts of `n^k`, and of `n^k log n`, with the orders that are read. -/
inductive Writes : String → ℕ → Bool → CostOrder → Prop
  | power (k : ℕ) : Writes (powerText k []) k false (.whole k)
  | powerLog (k : ℕ) : Writes (powerText k logFactor) k true (.whole k)
  | constant : Writes "1" 0 false (.whole 0)
  | linear : Writes "n" 1 false (.whole 1)
  | logarithm : Writes "log n" 0 true .logarithm
  | linearithm : Writes "n log n" 1 true .linearithm

variable {k : ℕ} {cost : String} {rest : List Char} {logged : Bool} {o : CostOrder}

theorem toList_powerText (k : ℕ) (rest : List Char) :
    (powerText k rest).toList = 'n' :: '^' :: (Nat.toDigits 10 k ++ rest) := toList_ofList

theorem isSmall_of_isDigit {c : Char} (h : c.isDigit = true) : Cache.isSmall c = true := by
  have hrange : 48 ≤ c.toNat ∧ c.toNat ≤ 57 := by
    simpa [Char.isDigit, UInt32.le_iff_toNat_le] using h
  rw [← Char.ofNat_toNat c]
  generalize c.toNat = n at hrange
  obtain ⟨hlow, hhigh⟩ := hrange
  interval_cases n <;> decide

theorem lower_powerText (hrest : rest = [] ∨ rest = logFactor) :
    lower (powerText k rest).toList = (powerText k rest).toList := by
  refine Cache.lower_of_isSmall fun c hc => ?_
  simp only [toList_powerText, mem_cons, mem_append] at hc
  rcases hc with rfl | rfl | hc | hc
  · decide
  · decide
  · exact isSmall_of_isDigit (Nat.isDigit_of_mem_toDigits (by decide) (by decide) hc)
  · rcases hrest with rfl | rfl
    · cases hc
    · exact all_eq_true.mp (by decide : logFactor.all Cache.isSmall = true) c hc

theorem lookup_table (ds : List Char) : CostOrder.table.lookup (String.ofList ('n' :: '^' :: ds))
      = if ds = ['2'] then some (.whole 2) else if ds = ['3'] then some (.whole 3) else none := by
  have hbeq (t : String) : (ofList ('n' :: '^' :: ds) == t)
      = decide ('n' :: '^' :: ds = t.toList) := by
    rw [Bool.eq_iff_iff, beq_iff_eq, decide_eq_true_iff, ← toList_inj, toList_ofList]
  simp only [CostOrder.table, List.lookup, hbeq]
  by_cases htwo : ds = ['2']
  · simp [htwo]
  · by_cases hthree : ds = ['3'] <;> simp [htwo, hthree]

theorem search_power (k : ℕ) (hrest : ∀ c ∈ rest.head?, isDecimal c = false) :
    CostOrder.power.search (powerText k rest).toList = some [Nat.toDigits 10 k] := by
  have hfit := fit_digits k hrest (show fit [] rest = some ([], rest) from rfl)
  rw [toList_powerText]
  have hpower : fit CostOrder.power ('n' :: '^' :: (Nat.toDigits 10 k ++ rest))
      = some ([Nat.toDigits 10 k], rest) := by
    rw [CostOrder.power, fit_char]
    exact @fit_greedy _ _ ['^'] _ _ _ rfl (Nat.zero_le _) (by simp [Piece.limit, Piece.optional])
      hfit
  exact search_of_fit hpower

theorem eq_of_toDigits_append (n : ℕ) (hrest : rest = [] ∨ rest = logFactor)
    (h : Nat.toDigits 10 k ++ rest = Nat.toDigits 10 n) : k = n := by
  rcases hrest with rfl | rfl
  · rw [append_nil] at h
    rw [← @Nat.ofDigitChars_ten_toDigits k, h, Nat.ofDigitChars_ten_toDigits]
  · have hblank : ' ' ∈ Nat.toDigits 10 n := h ▸ mem_append_right _ (by decide)
    exact absurd (Nat.isDigit_of_mem_toDigits (by decide) (by decide) hblank) (by decide)

theorem read_powerText (hk : k < 10 ^ Decimal.digitLimit) (hrest : rest = [] ∨ rest = logFactor) :
    CostOrder.read (powerText k rest) = .ok (some (.whole k)) := by
  have hend : ∀ c ∈ rest.head?, isDecimal c = false := by
    rcases hrest with rfl | rfl
    · simp
    · rintro c ⟨⟩
      decide
  rw [CostOrder.read, lower_powerText hrest, ofList_toList, powerText, lookup_table,
    ← powerText, search_power k hend]
  split_ifs with htwo hthree
  · rw [eq_of_toDigits_append 2 hrest htwo]
  · rw [eq_of_toDigits_append 3 hrest hthree]
  · simp only [number_toDigits_eq_ok_iff.mpr ⟨hk, rfl⟩]
    rfl

/-- A character that neither closes a cost nor ends its line. -/
def isInner (c : Char) : Bool := c != ')' && c != '\n'

/-- A text is a cost by its characters, of which the first and the last are no blanks. -/
theorem isCost_of_ends {c d : Char} {cs ds : List Char} (hfirst : cost.toList = c :: cs)
    (hlast : cost.toList = ds ++ [d]) (hinner : (c :: cs).all isInner = true)
    (hc : isBlank c = false) (hd : isBlank d = false) : IsCost cost := by
  rw [← hfirst, all_eq_true] at hinner
  exact ⟨by simp [hfirst], fun h => absurd (hinner _ h) (by decide),
    fun h => absurd (hinner _ h) (by decide), by simp [hfirst, hc], by simp [hlast, hd]⟩

theorem isCost_powerText (hrest : rest = [] ∨ rest = logFactor) : IsCost (powerText k rest) := by
  have hdigits : (Nat.toDigits 10 k).all isInner = true := by
    refine all_eq_true.mpr fun c hc => ?_
    have hdigit := Nat.isDigit_of_mem_toDigits (by decide) (by decide) hc
    refine Bool.and_eq_true_iff.mpr ⟨bne_iff_ne.mpr ?_, bne_iff_ne.mpr ?_⟩ <;> rintro rfl <;>
      exact absurd hdigit (by decide)
  have hinner : rest.all isInner = true := by rcases hrest with rfl | rfl <;> decide
  obtain ⟨ds, d, hend, hd⟩ : ∃ ds d, Nat.toDigits 10 k ++ rest = ds ++ [d] ∧ isBlank d = false := by
    rcases hrest with rfl | rfl
    · have hlast := dropLast_append_getLast (@Nat.toDigits_ne_nil k 10)
      exact ⟨_, _, by rw [append_nil, hlast], not_isBlank_of_isDecimal
        (isDecimal_of_mem_toDigits (getLast_mem _))⟩
    · exact ⟨Nat.toDigits 10 k ++ [' ', 'l', 'o', 'g', ' '], 'n', by simp [logFactor], by decide⟩
  have hlast : (powerText k rest).toList = ('n' :: '^' :: ds) ++ [d] := by
    rw [toList_powerText, hend]
    rfl
  refine isCost_of_ends (toList_powerText k rest) hlast ?_ (by decide) hd
  simp only [all_cons, all_append, hdigits, hinner]
  decide

theorem Writes.isCost (h : Writes cost k logged o) : IsCost cost := by
  cases h with
  | power => exact isCost_powerText (.inl rfl)
  | powerLog => exact isCost_powerText (.inr rfl)
  | linear => exact isCost_linear
  | constant =>
    have htext : "1".toList = ['1'] := rfl
    exact isCost_of_ends htext (htext.trans (nil_append _).symm) (by decide) (by decide)
      (by decide)
  | logarithm =>
    have htext : "log n".toList = ['l', 'o', 'g', ' '] ++ ['n'] := rfl
    exact isCost_of_ends htext htext (by decide) (by decide) (by decide)
  | linearithm =>
    have htext : "n log n".toList = ['n', ' ', 'l', 'o', 'g', ' '] ++ ['n'] := rfl
    exact isCost_of_ends htext htext (by decide) (by decide) (by decide)

theorem Writes.read_eq (h : Writes cost k logged o) (hk : k < 10 ^ Decimal.digitLimit) :
    CostOrder.read cost = .ok (some o) := by
  cases h with
  | power => exact read_powerText hk (.inl rfl)
  | powerLog => exact read_powerText hk (.inr rfl)
  | _ => rfl

theorem Writes.le_exponent (h : Writes cost k logged o) : (k : ℝ) ≤ o.exponent := by
  cases h <;> norm_num [CostOrder.exponent]

theorem Writes.isSmall (h : Writes cost k logged o) (hk : k.log2 < 1000) : o.IsSmall := by
  cases h with
  | logarithm | linearithm => trivial
  | _ => exact hk

/-! ### The right case -/

/-- That a case is the right one for `T(n) = aT(n/b) + n^k`, or with `n^k log n`. -/
def Case.IsRight (a b k : ℕ) (logged : Bool) : Case → Prop
  | one => b ^ k < a
  | two => logged = false ∧ b ^ k = a
  | three => a < b ^ k

attribute [local instance] CostOrder.atLeastTwo_hundred in
/-- That the comparison misleads: an order is taken to be equal to an exponent that it is only
    close to or that it exceeds by a logarithm, or a logarithm is counted as more than the cost
    exceeds. -/
def CostOrder.Misleads (o : CostOrder) (a b k : ℕ) (logged : Bool) : Prop :=
  |o.exponent - Real.logb b a| < 1 / 100 ∧ (logged = true ∨ b ^ k ≠ a)
    ∨ Real.logb b a ≤ o.exponent - 1 / 100 ∧ b ^ k ≤ a

theorem log2_lt_of_lt {n : ℕ} (h : n < 10 ^ 300) : n.log2 < 1000 := by
  rcases n.eq_zero_or_pos with rfl | hn
  · decide
  · refine (Nat.log2_lt hn.ne').mpr (h.trans_le ?_)
    calc 10 ^ 300 = (10 ^ 3) ^ 100 := by rw [← pow_mul]
      _ ≤ (2 ^ 10) ^ 100 := Nat.pow_le_pow_left (by decide) _
      _ = 2 ^ 1000 := by rw [← pow_mul]

variable {a b : ℕ}

theorem pow_lt_of_lt_logb (ha : 1 ≤ a) (hb : 2 ≤ b) (hcost : Writes cost k logged o)
    (h : o.exponent < Real.logb b a) : b ^ k < a := by
  have hlt := hcost.le_exponent.trans_lt h
  rw [Real.lt_logb_iff_rpow_lt (by exact_mod_cast hb) (by exact_mod_cast ha),
    Real.rpow_natCast] at hlt
  exact_mod_cast hlt

/-- Without rounding, a case is right unless the comparison misleads. -/
theorem Case.isRight_caseAt_iff (ha : 1 ≤ a) (hb : 2 ≤ b) (hcost : Writes cost k logged o)
    (hclear : o.IsClear (Real.logb b a)) :
    (o.caseAt (Real.logb b a)).IsRight a b k logged ↔ ¬o.Misleads a b k logged := by
  cases hcase : o.caseAt (Real.logb b a) with
  | one =>
    have habove := CostOrder.caseAt_eq_one_iff.mp hcase
    refine iff_of_true (pow_lt_of_lt_logb ha hb hcost (by linarith)) ?_
    rintro (⟨hnear, -⟩ | ⟨hunder, -⟩)
    · linarith [(abs_lt.mp hnear).1]
    · linarith
  | two =>
    have hnear := CostOrder.caseAt_eq_two_iff.mp hcase
    have hunder : ¬Real.logb b a ≤ o.exponent - 1 / 100 := fun h => by
      linarith [(abs_lt.mp hnear).2]
    simp only [IsRight, CostOrder.Misleads, hnear, hunder, true_and, false_and, or_false, not_or,
      not_not, Bool.not_eq_true]
  | three =>
    have hpoint : Real.logb b a ≠ o.exponent + 1 / 100 := fun h => by
      have := hclear.1
      norm_num [h] at this
    have hunder := (CostOrder.caseAt_eq_three_iff.mp hcase).resolve_right hpoint
    have hnear : ¬|o.exponent - Real.logb b a| < 1 / 100 := fun h => by
      linarith [(abs_lt.mp h).2]
    simp only [IsRight, CostOrder.Misleads, hnear, hunder, false_and, true_and, false_or, not_le]

/-- **The case that is reported.**  For every accurate logarithm a case is reported.  The first one
    is reported only where it is right.  Away from the margins, where rounding decides nothing, the
    case is the right one unless the comparison misleads. -/
theorem Master.case_right_iff {log : Float → Float} (hlog : IsAccurateLog log) {a b k : ℕ}
    (ha : 1 ≤ a) (hb : 2 ≤ b) (ha' : a < 10 ^ 300) (hb' : b < 10 ^ 300) (hk : k < 10 ^ 300)
    (hcost : Writes cost k logged o) (s : Spacing) (given : Value) :
    ∃ v c, reportBy log given (s.branching a b cost) = .ok v
      ∧ v.get? "case" = some (.int (Case.number c)) ∧ (c = .one → b ^ k < a)
      ∧ (o.IsClear (Real.logb b a) → (c.IsRight a b k logged ↔ ¬o.Misleads a b k logged)) := by
  have hdigits {n i : ℕ} (hi : i ≤ Decimal.digitLimit) (hn : n < 10 ^ i) :
      n < 10 ^ Decimal.digitLimit := hn.trans_le (Nat.pow_le_pow_right (by decide) hi)
  replace hdigits {n : ℕ} := @hdigits n 300 (by decide)
  obtain ⟨x, r, hx, hr, herror⟩ :=
    value?_logBaseBy hlog ha hb (log2_lt_of_lt ha') (log2_lt_of_lt hb')
  obtain ⟨hlow, hhigh⟩ := logb_mem ha hb (log2_lt_of_lt ha')
  obtain ⟨c, hc, hone, hclear⟩ := Comparison.caseOf_double hr herror hlow hhigh
    (hcost.isSmall (log2_lt_of_lt hk))
  have hread := Divide.read_branching s (hdigits ha') (hdigits hb') hcost.isCost
  have hmaster : ofDivide log ⟨a, b, cost⟩ = .ok ⟨⟨a, b, cost⟩, x, c⟩ := by
    simp only [ofDivide, hx, Comparison.decide, hcost.read_eq (hdigits hk), bind, Except.bind, hc]
    rfl
  refine ⟨Master.toValue ⟨⟨a, b, cost⟩, x, c⟩, c, ?_, rfl, fun h => ?_, fun h => ?_⟩
  · simp only [reportBy, solveBy, hread, hmaster, bind, Except.bind]
    rfl
  · exact pow_lt_of_lt_logb ha hb hcost (hone h)
  · rw [hclear h]
    exact Case.isRight_caseAt_iff ha hb hcost h

/-- A logarithmic cost: `n ^ (1 / 3)` exceeds it, but the case is another one. -/
theorem Master.case_right_iff_logarithm :
    ∃ v c, reportBy roundedLog .none "T(n) = 2T(n/8) + O(log n)" = .ok v
      ∧ v.get? "case" = some (.int (Case.number c)) ∧ ¬c.IsRight 2 8 0 true := by
  have htext : Spacing.plain.branching 2 8 "log n" = "T(n) = 2T(n/8) + O(log n)" := by
    decide +kernel
  have hexponent : Real.logb (8 : ℕ) (2 : ℕ) = 1 / 3 := by
    rw [Real.logb_eq_iff_rpow_eq (by norm_num) (by norm_num) (by norm_num),
      show ((8 : ℕ) : ℝ) = 2 ^ (3 : ℝ) by norm_num, ← Real.rpow_mul (by norm_num)]
    norm_num
  have hsmall {n i : ℕ} (hi : i ≠ 0) (hn : n < 10) : n < 10 ^ i :=
    hn.trans_le (Nat.le_self_pow hi 10)
  obtain ⟨v, c, hv, hc, -, hiff⟩ := case_right_iff isAccurateLog_roundedLog (by decide : 1 ≤ 2)
    (by decide : 2 ≤ 8) (hsmall (by decide) (by decide)) (hsmall (by decide) (by decide))
    (hsmall (by decide) (by decide)) .logarithm .plain .none
  rw [htext] at hv
  refine ⟨v, c, hv, hc, ?_⟩
  rw [hiff, not_not]
  · exact .inr ⟨by rw [hexponent]; norm_num [CostOrder.exponent], by decide⟩
  · rw [CostOrder.IsClear, hexponent]
    norm_num [CostOrder.exponent]

end Ordo.Recurrence
