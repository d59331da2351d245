import Mathlib.Algebra.BigOperators.Intervals
import Mathlib.Data.Rat.Cast.Order
import Mathlib.Tactic.Linarith
import Mathlib.Tactic.Ring
import Ordo.Proofs.NormalForms

namespace Ordo

/-!
# Sums and their closed forms

The normal form of a sum changes nothing but its blanks, and a known sum is found wherever its
text stands.  So a sum is taken for the first one that its text begins with.

* `Summation.squeeze_normalize` — normal forms up to blanks;
* `Summation.formula?_shown` — which known sums can be found;
* `Summation.Summand`, `Summation.closedForms` — summands, and what closed forms stand for;
* `Summation.closed_form_right_iff` — for which summands the closed form is the sum;
* `Summation.Nested.nested_not_solved` — sums of sums are not solved.
-/

open List

/-! ### Normal forms -/

namespace Text

theorem flatten_wordsFrom (piece cs : List Char) :
    (wordsFrom piece cs).flatten = piece.reverse ++ squeeze cs := by
  induction cs generalizing piece with
  | nil => cases piece <;> simp [wordsFrom]
  | cons c cs ih => cases hc : isBlank c <;> cases piece <;> simp [wordsFrom, squeeze, hc, ih]

/-- The words of a text are all of it but its blanks. -/
theorem flatten_words (cs : List Char) : (words cs).flatten = squeeze cs := flatten_wordsFrom [] cs

theorem squeeze_toList_append (s t : String) :
    squeeze (s ++ t).toList = squeeze s.toList ++ squeeze t.toList := by
  rw [String.toList_append, squeeze_append]

theorem squeeze_infix {cs ds : List Char} (h : cs <:+: ds) : squeeze cs <:+: squeeze ds :=
  h.filter fun c => !isBlank c

theorem squeeze_intercalate_space (l : List (List Char)) :
    squeeze ([' '].intercalate l) = squeeze l.flatten := by
  have hspace (cs : List Char) : squeeze (' ' :: cs) = squeeze cs := rfl
  unfold List.intercalate
  fun_induction intersperse [' '] l <;> simp_all

end Text

namespace Summation

open Text Text.Template
open Recurrence (fits_blanks blanks anything)

/-- The normal form of a text is the text, up to blanks. -/
theorem squeeze_normalizeChars (cs : List Char) : squeeze (normalizeChars cs) = squeeze cs := by
  have hwords : squeeze (spaced cs) = squeeze cs := by
    rw [spaced, squeeze_intercalate_space, flatten_words]
    exact filter_filter .. |>.trans (by simp [squeeze])
  have hword := squeeze_tighten looseWord_tightens
    (looseConstant.replace (fun _ => "O(1)".toList) (spaced cs))
  exact hword.trans ((squeeze_tighten looseConstant_tightens (spaced cs)).trans hwords)

theorem squeeze_normalize (s : String) : squeeze (normalize s).toList = squeeze s.toList := by
  rw [normalize, String.toList_ofList, squeeze_normalizeChars]

/-! ### Known sums -/

variable {f : Formula} {s : String}

theorem occurs_of_formula? (h : formula? s = some f) : occurs f.shown.toList s.toList = true := by
  have hfound := find?_some h
  exact hfound

/-- **Which known sums can be found:** those that are the first one in their own text. -/
theorem formula?_shown (h : formula? s = some f) : formula? f.shown = some f := by
  obtain ⟨hshown, before, after, hformulas, hbefore⟩ := find?_eq_some_iff_append.mp h
  refine find?_eq_some_iff_append.mpr ⟨?_, before, after, hformulas, fun g hg => ?_⟩
  · exact occurs_eq_true_iff.mpr (infix_refl _)
  · have hnot := hbefore g hg
    rw [Bool.not_eq_true', ← Bool.not_eq_true, occurs_eq_true_iff] at hnot ⊢
    exact fun hpart => hnot (hpart.trans (occurs_eq_true_iff.mp hshown))

/-- What stands after the sign of a sum over `i`, without blanks. -/
def overI : List Char := ['(', 'i', '=', '1', 't', 'o', 'n', ')']

/-- What stands after the sign of a sum over `j`. -/
def overJ : List Char := ['(', 'j', '=']

/-- The summands by which a known sum over `i` from one is found, with its closed form. -/
def readings : List (String × String) :=
  [("O(1)", "n"), ("1", "n"), ("i", "n(n+1)/2"), ("2^i", "2^(n+1) - 2")]

/-- The known sums that can be found, without their blanks. -/
theorem squeeze_shown : ∀ f ∈ formulas, formula? f.shown = some f → (∃ r ∈ readings, f.closed = r.2
      ∧ squeeze f.shown.toList = 'Σ' :: (overI ++ r.1.toList))
    ∨ squeeze f.shown.toList = 'Σ' :: "(i=0tologn)2^i".toList := by
  decide

/-- What a known sum shows stands in a text in which it is found, up to blanks. -/
theorem exists_shown_infix (h : formula? (normalize s) = some f) :
    ∃ rest, 'Σ' :: rest <:+: squeeze s.toList
      ∧ ((∃ r ∈ readings, f.closed = r.2 ∧ rest = overI ++ r.1.toList)
        ∨ rest = "(i=0tologn)2^i".toList) := by
  have hpart := squeeze_infix (occurs_eq_true_iff.mp (occurs_of_formula? h))
  rw [squeeze_normalize] at hpart
  rcases squeeze_shown f (mem_of_find?_eq_some h) (formula?_shown h) with
    ⟨r, hr, hclosed, hshown⟩ | hshown
  · exact ⟨_, hshown ▸ hpart, .inl ⟨r, hr, hclosed, rfl⟩⟩
  · exact ⟨_, hshown ▸ hpart, .inr rfl⟩

/-! ### Closed forms -/

/-- What is summed up over `i`; the order `O(1)` stands for one. -/
inductive Summand
  | constant (c : ℕ) | order | index | power (k : ℕ) | exponential (c : ℕ)

/-- What the closed forms of the known sums stand for. -/
def closedForms : List (String × (ℕ → ℚ)) :=
  [("n", fun n => n), ("n(n+1)/2", fun n => n * (n + 1) / 2),
   ("n(n+1)(2n+1)/6", fun n => n * (n + 1) * (2 * n + 1) / 6),
   ("[n(n+1)/2]²", fun n => (n * (n + 1) / 2) ^ 2), ("2^(n+1) - 2", fun n => 2 ^ (n + 1) - 2),
   ("2n - 1", fun n => 2 * n - 1)]

namespace Summand

variable (e : Summand)

def text : Summand → String
  | constant c => toString c
  | order => "O(1)"
  | index => "i"
  | power k => "i^" ++ toString k
  | exponential c => toString c ++ "^i"

def value : Summand → ℕ → ℕ
  | constant c, _ => c
  | order, _ => 1
  | index, i => i
  | power k, i => i ^ k
  | exponential c, i => c ^ i

/-- The text of a sum over `i` from one. -/
def sumText : String := "Σ(i=1 to n) " ++ e.text

/-- The sum over `i` from one to `n`. -/
def total (n : ℕ) : ℕ := ∑ i ∈ Finset.Icc 1 n, e.value i

/-- The texts of a sum with blanks anywhere. -/
def IsLaidOut (s : String) : Prop := squeeze s.toList = squeeze e.sumText.toList

/-- The summands whose sum is not taken for another one. -/
def IsRight : Summand → Prop
  | constant c => c = 1
  | order | index => True
  | power k => k = 1
  | exponential c => c = 1 ∨ c = 2

variable {e}

/-- What is nothing at zero and grows by the summand is the sum. -/
theorem eq_total {g : ℕ → ℚ} (hzero : g 0 = 0) (hstep : ∀ n, g (n + 1) = g n + e.value (n + 1))
    (n : ℕ) : g n = e.total n := by
  induction n with
  | zero => simpa [total] using hzero
  | succ n ih => rw [hstep, ih, total, total, Finset.sum_Icc_succ_top (by omega), Nat.cast_add]

theorem total_one : e.total 1 = e.value 1 := by simp [total]

theorem eq_total_of_one (h : ∀ i, e.value i = 1) (n : ℕ) : (n : ℚ) = e.total n :=
  eq_total (g := fun n => n) (by simp) (by simp [h]) n

theorem eq_total_of_index (h : ∀ i, e.value i = i) (n : ℕ) : (n * (n + 1) / 2 : ℚ) = e.total n := by
  refine eq_total (g := fun n => n * (n + 1) / 2) (by simp) (fun n => ?_) n
  rw [h]
  push_cast
  ring

theorem eq_total_of_two_pow (h : ∀ i, e.value i = 2 ^ i) (n : ℕ) :
    (2 ^ (n + 1) - 2 : ℚ) = e.total n := by
  refine eq_total (g := fun n => 2 ^ (n + 1) - 2) (by simp) (fun n => ?_) n
  rw [h]
  push_cast
  ring

/-- How the text of a summand begins. -/
theorem prefix_cases {x : Char} {xs : List Char} (h : x :: xs <+: e.text.toList) :
    x = 'O' ∧ e = order ∨ x = 'i' ∧ (e = index ∨ ∃ k, e = power k)
    ∨ x.isDigit = true ∧ ((∃ c, e = constant c ∧ ∀ y ∈ xs, y.isDigit = true)
      ∨ ∃ c, e = exponential c) := by
  have hdigits (c : ℕ) : ∃ d ds, (toString c).toList = d :: ds
      ∧ ∀ y ∈ d :: ds, y.isDigit = true := by
    obtain ⟨d, ds, hds⟩ := exists_cons_of_ne_nil (@Nat.toDigits_ne_nil c 10)
    exact ⟨d, ds, Nat.toList_repr.trans hds, fun y hy =>
      Nat.isDigit_of_mem_toDigits (by decide) (by decide) (hds ▸ hy)⟩
  cases e with
  | constant c =>
    obtain ⟨d, ds, hds, hdigit⟩ := hdigits c
    rw [text, hds] at h
    have hall (y : Char) (hy : y ∈ x :: xs) := hdigit y (h.subset hy)
    exact .inr (.inr ⟨hall x mem_cons_self,
      .inl ⟨c, rfl, fun y hy => hall y (mem_cons_of_mem x hy)⟩⟩)
  | order => exact .inl ⟨(cons_prefix_cons.mp h).1, rfl⟩
  | index => exact .inr (.inl ⟨(cons_prefix_cons.mp h).1, .inl rfl⟩)
  | power k =>
    rw [text, String.toList_append] at h
    exact .inr (.inl ⟨(cons_prefix_cons.mp h).1, .inr ⟨k, rfl⟩⟩)
  | exponential c =>
    obtain ⟨d, ds, hds, hdigit⟩ := hdigits c
    rw [text, String.toList_append, hds] at h
    obtain rfl := (cons_prefix_cons.mp h).1
    exact .inr (.inr ⟨hdigit x mem_cons_self, .inr ⟨c, rfl⟩⟩)

/-- For which summands that begin like a known one its closed form is right. -/
theorem right_iff_of_prefix {r : String × String} (hr : r ∈ readings)
    (h : r.1.toList <+: e.text.toList) :
    ∃ g, closedForms.lookup r.2 = some g ∧ ((∀ n, 1 ≤ n → g n = e.total n) ↔ e.IsRight) := by
  simp only [readings, mem_cons, not_mem_nil, or_false] at hr
  rcases hr with rfl | rfl | rfl | rfl
  · refine ⟨fun n => n, rfl, ?_⟩
    obtain ⟨-, rfl⟩ | ⟨⟨⟩, -⟩ | ⟨⟨⟩, -⟩ := prefix_cases h
    exact iff_of_true (fun n _ => eq_total_of_one (fun _ => rfl) n) trivial
  · refine ⟨fun n => n, rfl, ?_⟩
    obtain ⟨⟨⟩, -⟩ | ⟨⟨⟩, -⟩ | ⟨-, ⟨c, rfl, -⟩ | ⟨c, rfl⟩⟩ := prefix_cases h
    · constructor
      · intro hall
        have hone := hall 1 le_rfl
        simp only [total_one, value, Nat.cast_inj] at hone
        exact hone.symm
      · rintro ⟨⟩ n -
        exact eq_total_of_one (fun _ => rfl) n
    · constructor
      · intro hall
        have hone := hall 1 le_rfl
        simp only [total_one, value, pow_one, Nat.cast_inj] at hone
        exact .inl hone.symm
      · rintro (rfl | rfl) n -
        · exact eq_total_of_one (e := exponential 1) Nat.one_pow n
        · exact absurd h (by decide)
  · refine ⟨fun n => n * (n + 1) / 2, rfl, ?_⟩
    obtain ⟨⟨⟩, -⟩ | ⟨-, rfl | ⟨k, rfl⟩⟩ | ⟨⟨⟩, -⟩ := prefix_cases h
    · exact iff_of_true (fun n _ => eq_total_of_index (fun _ => rfl) n) trivial
    · constructor
      · intro hall
        have htwo : ((2 : ℕ) * ((2 : ℕ) + 1) / 2 : ℚ) = (1 ^ k + 2 ^ k : ℕ) := hall 2 (by decide)
        have hpow : 2 ^ k = 2 ^ 1 := by
          rw [Nat.one_pow] at htwo
          exact_mod_cast (by push_cast at htwo ⊢; linarith : ((2 ^ k : ℕ) : ℚ) = (2 ^ 1 : ℕ))
        exact Nat.pow_right_injective le_rfl hpow
      · rintro ⟨⟩ n -
        exact eq_total_of_index (e := power 1) Nat.pow_one n
  · refine ⟨fun n => 2 ^ (n + 1) - 2, rfl, ?_⟩
    obtain ⟨⟨⟩, -⟩ | ⟨⟨⟩, -⟩ | ⟨-, ⟨c, rfl, hdigit⟩ | ⟨c, rfl⟩⟩ := prefix_cases h
    · exact absurd (hdigit '^' (by decide)) (by decide)
    · constructor
      · intro hall
        have hone := hall 1 le_rfl
        simp only [total_one, value, pow_one, one_add_one_eq_two] at hone
        exact .inr (by exact_mod_cast (by linarith : (c : ℚ) = 2))
      · rintro (rfl | rfl) n -
        · exact absurd h (by decide)
        · exact eq_total_of_two_pow (fun _ => rfl) n

/-- The characters of a summand are no blanks, and none begins a sum. -/
theorem plain_of_mem {x : Char} (h : x ∈ e.text.toList) : isBlank x = false ∧ x ≠ 'Σ' := by
  have hdigits {c : ℕ} (hx : x ∈ (toString c).toList) : isBlank x = false ∧ x ≠ 'Σ' := by
    have hdigit : x.isDigit = true :=
      Nat.isDigit_of_mem_toDigits (by decide) (by decide) (Nat.toList_repr ▸ hx)
    refine ⟨Recurrence.not_isBlank_of_isDecimal (isDecimal_of_isDigit hdigit), ?_⟩
    rintro rfl
    cases hdigit
  have hsigns : ∀ s ∈ ["O(1)", "i", "i^", "^i"], x ∈ s.toList → isBlank x = false ∧ x ≠ 'Σ' := by
    intro s hs hx
    have hall : (s.toList.all fun x => !isBlank x && x != 'Σ') = true := by
      clear hx
      revert s
      decide
    simpa using all_eq_true.mp hall x hx
  cases e with
  | constant c => exact hdigits h
  | order | index => exact hsigns _ (by decide) h
  | power k =>
    rw [text, String.toList_append] at h
    exact (mem_append.mp h).elim (hsigns _ (by decide)) hdigits
  | exponential c =>
    rw [text, String.toList_append] at h
    exact (mem_append.mp h).elim hdigits (hsigns _ (by decide))

theorem squeeze_sumText : squeeze e.sumText.toList = 'Σ' :: (overI ++ e.text.toList) := by
  have hlead : squeeze "Σ(i=1 to n) ".toList = 'Σ' :: overI := by decide
  rw [sumText, squeeze_toList_append _ e.text, squeeze_eq_self fun x hx => (plain_of_mem hx).1,
    hlead]
  rfl

end Summand

/-! ### Sums of sums -/

namespace Nested

/-- What is found of a sum of sums, up to blanks. -/
theorem exists_of_search {cs : List Char} {runs : List (List Char)}
    (h : form.search cs = some runs) : ∃ range term, runs = [range, term] ∧ ')' ∉ range
      ∧ 'Σ' :: (overI ++ 'Σ' :: (overJ ++ (squeeze range ++ [')']))) <:+: squeeze cs := by
  obtain ⟨end', tail, ⟨before, rfl⟩, hfit⟩ := exists_fit_of_search h
  have hfits := fits_of_fit hfit
  simp only [form, append_assoc] at hfits
  obtain ⟨cs₁, rfl, h₁⟩ := hfits.of_text
  obtain ⟨cs₂, hcs₂, h₂⟩ := fits_blanks h₁
  obtain ⟨cs₃, rfl, h₃⟩ := h₂.of_text
  obtain ⟨range, cs₄, runs₄, hrange, rfl, rfl, h₄⟩ := h₃.cons_inv
  obtain ⟨cs₅, rfl, h₅⟩ := h₄.of_char
  obtain ⟨cs₆, -, h₆⟩ := fits_blanks h₅
  obtain ⟨term, cs₇, runs₇, -, rfl, rfl, ⟨⟩⟩ := h₆.cons_inv
  have hfound : squeeze ("Σ(i=1 to n)".toList ++ cs₁)
      = 'Σ' :: (overI ++ 'Σ' :: (overJ ++ (squeeze range ++ ')' :: squeeze cs₅))) := by
    rw [squeeze_append, hcs₂, squeeze_append, squeeze_append]
    rfl
  refine ⟨range, term, rfl, ?_, squeeze before, squeeze cs₅, ?_⟩
  · intro hmem
    exact absurd (hrange.accepted _ hmem) (by decide)
  · rw [squeeze_append before, hfound]
    simp only [append_assoc, cons_append, nil_append]

end Nested

/-- **When closed forms are sums.** If a sum over `i` from one to `n` is solved, however it is laid
    out, the closed form is that of the sum for all `n` exactly for the summands `1`, `O(1)`, `i`,
    `i^1`, `1^i` and `2^i`.  All others are taken for a summand that they begin with. -/
theorem closed_form_right_iff {e : Summand} {s : String} (hs : e.IsLaidOut s) {given : Value}
    (h : (report given s).get? "success" = some (.bool true)) :
    ∃ closed g, (report given s).get? "simplified" = some (.str closed)
      ∧ closedForms.lookup closed = some g
      ∧ ((∀ n, 1 ≤ n → g n = e.total n) ↔ e.IsRight) := by
  rw [Summand.IsLaidOut, Summand.squeeze_sumText] at hs
  have hone : 'Σ' ∉ overI ++ e.text.toList := by
    rw [List.mem_append, not_or]
    exact ⟨by decide, fun hmem => (Summand.plain_of_mem hmem).2 rfl⟩
  have hread : Nested.read (normalize s) = none := by
    cases hsearch : Nested.form.search (normalize s).toList with
    | none => rw [Nested.read, hsearch]
    | some runs =>
      -- there would be two sums
      obtain ⟨range, term, -, -, hpart⟩ := Nested.exists_of_search hsearch
      have hcount := hpart.sublist.count_le 'Σ'
      rw [squeeze_normalize, hs, List.count_cons_self, List.count_append, List.count_cons_self,
        List.count_cons_self, List.count_eq_zero.mpr hone] at hcount
      omega
  unfold report at h ⊢
  simp only [hread] at h ⊢
  cases hf : formula? (normalize s) with
  | none =>
    rw [hf] at h
    cases h
  | some f =>
    obtain ⟨rest, hpart, hrest⟩ := exists_shown_infix hf
    rw [hs] at hpart
    rcases List.infix_cons_iff.mp hpart with hstart | hafter
    · rw [List.cons_prefix_cons] at hstart
      rcases hrest with ⟨r, hr, hclosed, rfl⟩ | rfl
      · obtain ⟨g, hg, hiff⟩ :=
          Summand.right_iff_of_prefix hr ((List.prefix_append_right_inj _).mp hstart.2)
        exact ⟨f.closed, g, rfl, hclosed ▸ hg, hiff⟩
      · simp [overI] at hstart
    · exact absurd (hafter.subset List.mem_cons_self) hone

/-- The sum of the squares is taken for that of the numbers, which is wrong. -/
theorem squares_not_right : ∃ closed g,
    (report .none "Σ(i=1 to n) i^2").get? "simplified" = some (.str closed)
      ∧ closedForms.lookup closed = some g
      ∧ ¬∀ n, 1 ≤ n → g n = (Summand.power 2).total n := by
  obtain ⟨closed, g, hclosed, hg, hiff⟩ :=
    @closed_form_right_iff (.power 2) "Σ(i=1 to n) i^2" (by unfold Summand.IsLaidOut; decide)
      .none rfl
  exact ⟨closed, g, hclosed, hg, fun hall => absurd (hiff.mp hall) (by decide : ¬2 = 1)⟩

namespace Nested

/-- The ranges of an inner sum whose sum of sums is known, with the extent. -/
def ranges : List (String × Extent) :=
  [("1 to i", .triangular), ("i to n", .triangular), ("1 to n", .rectangular)]

/-- The start of a sum of sums with a given range. -/
def lead (range : String) : String := "Σ(i=1 to n) Σ(j=" ++ range ++ ") "

/-- The text of a sum of sums. -/
def sumText (range term : String) : String := lead range ++ term

/-- A range without its variable shows no extent. -/
theorem extentOf_eq_none {range : List Char} (h : 'j' ∉ range) : extentOf range = none := by
  have hnot {s : String} (hs : 'j' ∈ s.toList) : occurs s.toList range = false := by
    rw [← Bool.not_eq_true, occurs_eq_true_iff]
    exact fun hpart => h (hpart.subset hs)
  simp only [extentOf, hnot (s := "j=1 to i") (by decide), hnot (s := "j=i to n") (by decide),
    hnot (s := "j=1 to n") (by decide), Bool.or_false, Bool.false_eq_true, if_false]

/-- A sum of sums without its blanks. -/
theorem squeeze_sumText {r : String × Extent} (hr : r ∈ ranges) (term : String) :
    ∃ range, 'j' ∉ range ∧ 'Σ' ∉ range
      ∧ squeeze (sumText r.1 term).toList = 'Σ' :: (overI
        ++ 'Σ' :: (overJ ++ (range ++ ')' :: squeeze term.toList))) := by
  have hranges : ∀ r ∈ ranges, 'j' ∉ squeeze r.1.toList ∧ 'Σ' ∉ squeeze r.1.toList
      ∧ squeeze (lead r.1).toList
        = 'Σ' :: (overI ++ 'Σ' :: (overJ ++ (squeeze r.1.toList ++ [')']))) := by decide
  obtain ⟨hvariable, hsign, hlead⟩ := hranges r hr
  refine ⟨_, hvariable, hsign, ?_⟩
  rw [sumText, squeeze_toList_append, hlead]
  simp only [cons_append, append_assoc, nil_append]

section

variable {s : String} {range rest : List Char} (hrange : 'Σ' ∉ range)
  (hrest : ¬['Σ', '(', 'i'] <:+: rest)
  (hs : squeeze s.toList = 'Σ' :: (overI ++ 'Σ' :: (overJ ++ (range ++ ')' :: rest))))

include hrange hrest hs

/-- The one sum over `i` is the outer one. -/
theorem prefix_of_infix {cs : List Char} (hcs : cs.take 3 = ['Σ', '(', 'i'])
    (h : cs <:+: squeeze s.toList) : cs <+: squeeze s.toList := by
  obtain ⟨ds, rfl⟩ : ∃ ds, cs = 'Σ' :: '(' :: 'i' :: ds :=
    ⟨cs.drop 3, by rw [← take_append_drop 3 cs, hcs]; simp⟩
  rw [hs] at h ⊢
  rcases infix_cons_iff.mp h with hstart | hafter
  · exact hstart
  rcases infix_cons_iff.mp (infix_of_infix_append (by decide) hafter) with hstart | hafter
  · simp [overJ] at hstart
  · have hinner := infix_of_infix_append hrange (infix_of_infix_append (by decide) hafter)
    rcases infix_cons_iff.mp hinner with hstart | hinner
    · simp at hstart
    · exact absurd ((prefix_append ['Σ', '(', 'i'] ds).isInfix.trans hinner) hrest

theorem read_normalize_eq_none (hvariable : 'j' ∉ range) : read (normalize s) = none := by
  cases hsearch : form.search (normalize s).toList with
  | none => rw [read, hsearch]
  | some runs =>
    obtain ⟨range', term, rfl, hparen, hpart⟩ := exists_of_search hsearch
    rw [squeeze_normalize] at hpart
    have hleads := prefix_of_infix hrange hrest hs rfl hpart
    rw [hs, cons_prefix_cons, prefix_append_right_inj, cons_prefix_cons,
      prefix_append_right_inj] at hleads
    have hfound : squeeze range' <+: range :=
      prefix_of_prefix_append_cons (fun hmem => hparen (mem_of_mem_filter hmem))
        ((prefix_append ..).trans hleads.2.2)
    have hextent : extentOf (trim range') = none := by
      refine extentOf_eq_none fun hmem => hvariable (hfound.subset ?_)
      rw [← squeeze_trim]
      exact mem_filter.mpr ⟨hmem, rfl⟩
    rw [read, hsearch]
    simp only [hextent]
    rfl

theorem formula?_normalize_eq_none : formula? (normalize s) = none := by
  cases hf : formula? (normalize s) with
  | none => rfl
  | some f =>
    obtain ⟨shown, hpart, hshown⟩ := exists_shown_infix hf
    -- the summand of the outer sum is a sum
    have hsummand : ∀ r ∈ readings, ¬r.1.toList.take 1 <+: ['Σ'] := by decide
    rcases hshown with ⟨r, hr, -, rfl⟩ | rfl
    · have hleads := prefix_of_infix hrange hrest hs rfl hpart
      rw [hs, cons_prefix_cons] at hleads
      exact absurd (((prefix_append_right_inj _).mp hleads.2).take 1) (hsummand r hr)
    · have hleads := prefix_of_infix hrange hrest hs (by decide) hpart
      rw [hs, cons_prefix_cons] at hleads
      simp [overI] at hleads

end

/-- **Sums of sums are not solved.** Take `Σ(i=1 to n) Σ(j=R) E` for a range `R` whose sums are
    known, and any `E` without a sum over `i` in it.  However it is laid out, it is not solved: the
    range is looked at without its variable, which every known one shows. -/
theorem nested_not_solved {r : String × Extent} (hr : r ∈ ranges) {term s : String}
    (hterm : ¬['Σ', '(', 'i'] <:+: squeeze term.toList)
    (hs : squeeze s.toList = squeeze (sumText r.1 term).toList) (given : Value) :
    (report given s).get? "success" = some (.bool false) := by
  obtain ⟨range, hvariable, hrange, hsqueeze⟩ := squeeze_sumText hr term
  rw [report, read_normalize_eq_none hrange hterm (hs.trans hsqueeze) hvariable,
    formula?_normalize_eq_none hrange hterm (hs.trans hsqueeze)]
  rfl

/-- The sum of a constant over a triangle is not solved. -/
theorem triangle_not_solved : ("1 to i", Extent.triangular) ∈ ranges
    ∧ ¬['Σ', '(', 'i'] <:+: squeeze "O(1)".toList
    ∧ (report .none "Σ(i=1 to n) Σ(j=1 to i) O(1)").get? "success" = some (.bool false) := by
  have hterm : ¬['Σ', '(', 'i'] <:+: squeeze "O(1)".toList := by decide
  exact ⟨.head _, hterm, nested_not_solved (.head _) hterm (by decide) .none⟩

end Nested

end Summation

end Ordo
