import Mathlib.Algebra.GroupWithZero.Nat
import Ordo.Proofs.RoundTrip
import Ordo.Proofs.Templates

namespace Ordo.Recurrence

open Text Text.Template

/-!
# Recurrences in their usual form

The procedures on recurrences look for them with templates of their own.  On a recurrence that is
written in the usual way, with any blanks around its signs, they all read the same.

* `Spacing`, `IsCost` — the blanks around the signs, and the costs that can be written;
* `Spacing.branching`, `Spacing.single`, `Spacing.linear` — the texts of the recurrences
  `T(n) = aT(n/b) + O(f)`, `T(n) = T(n/b) + O(f)` and `T(n) = T(n-k) + O(f)`;
* `fit_head`, `fit_divided`, `fit_plus`, `fit_order` — how the pieces of all templates fit them;
* `Divide.read_branching`, `Tree.read_branching`, `Substitution.readDivide_branching`,
  `Divide.read_single`, `Linear.read_linear` — what is read.
-/

open List

open Decimal (digitLimit)

/-! ### Texts -/

/-- Blanks around the signs of an equation. -/
structure Spacing where
  beforeEquals : List Char
  afterEquals : List Char
  beforePlus : List Char
  afterPlus : List Char
  isBlank : ∀ c ∈ beforeEquals ++ afterEquals ++ beforePlus ++ afterPlus, isBlank c = true

/-- A cost that can stand in parentheses: a text within a line that closes no parenthesis, with
    no blanks around it. -/
structure IsCost (cost : String) : Prop where
  nonempty : cost.toList ≠ []
  unclosed : ')' ∉ cost.toList
  unbroken : '\n' ∉ cost.toList
  head : ∀ c ∈ cost.toList.head?, isBlank c = false
  last : ∀ c ∈ cost.toList.getLast?, isBlank c = false

namespace Spacing

variable (s : Spacing)

/-- An equation with the given right side. -/
def equation (right : List Char) : List Char :=
  "T(n)".toList ++ (s.beforeEquals ++ '=' :: (s.afterEquals ++ right))

/-- The summand `+ O(f)`. -/
def summand (cost : String) : List Char :=
  s.beforePlus ++ '+' :: (s.afterPlus ++ ("O(".toList ++ (cost.toList ++ [')'])))

/-- The call `T(n/b)`, and what comes after it. -/
def dividedCall (b : Nat) (rest : List Char) : List Char :=
  "T(n/".toList ++ (Nat.toDigits 10 b ++ ')' :: rest)

/-- The call `T(n-k)`, and what comes after it. -/
def reducedCall (k : Nat) (rest : List Char) : List Char :=
  "T(n-".toList ++ (Nat.toDigits 10 k ++ ')' :: rest)

/-- The text `T(n) = aT(n/b) + O(f)`. -/
def branching (a b : Nat) (cost : String) : String :=
  String.ofList (s.equation (Nat.toDigits 10 a ++ dividedCall b (s.summand cost)))

/-- The text `T(n) = T(n/b) + O(f)`. -/
def single (b : Nat) (cost : String) : String :=
  String.ofList (s.equation (dividedCall b (s.summand cost)))

/-- The text `T(n) = T(n-k) + O(f)`. -/
def linear (k : Nat) (cost : String) : String :=
  String.ofList (s.equation (reducedCall k (s.summand cost)))

theorem isBlank_beforeEquals : ∀ c ∈ s.beforeEquals, Text.isBlank c = true :=
  fun c hc => s.isBlank c (by simp [hc])

theorem isBlank_afterEquals : ∀ c ∈ s.afterEquals, Text.isBlank c = true :=
  fun c hc => s.isBlank c (by simp [hc])

theorem isBlank_beforePlus : ∀ c ∈ s.beforePlus, Text.isBlank c = true :=
  fun c hc => s.isBlank c (by simp [hc])

theorem isBlank_afterPlus : ∀ c ∈ s.afterPlus, Text.isBlank c = true :=
  fun c hc => s.isBlank c (by simp [hc])

end Spacing

/-- One blank around each sign. -/
def Spacing.plain : Spacing := ⟨[' '], [' '], [' '], [' '], List.all_eq_true.mp (by decide)⟩

example : Spacing.plain.branching 2 2 "n" = "T(n) = 2T(n/2) + O(n)" := by decide +kernel

/-- The linear cost. -/
theorem isCost_linear : IsCost "n" := by
  have hchars : "n".toList = ['n'] := rfl
  constructor <;> rw [hchars]
  · decide
  · decide
  · decide
  · rintro c ⟨⟩
    decide
  · rintro c ⟨⟩
    decide

/-! ### Blanks and digits -/

theorem not_isBlank_of_isDecimal {c : Char} (h : isDecimal c = true) : isBlank c = false := by
  obtain ⟨z, hz, hlow, -⟩ := exists_zero_of_isDecimal h
  have hzero : 48 ≤ z := by
    have hall : decimalZeros.all (48 ≤ ·) = true := by decide
    simpa using all_eq_true.mp hall z hz
  have hblank := not_isNumeralBlank_of_isDecimal h
  rw [Decimal.isNumeralBlank, Bool.and_eq_false_iff] at hblank
  rcases hblank with hblank | hcontrol
  · exact hblank
  · simp at hcontrol
    omega

theorem isDecimal_of_mem_toDigits {n : Nat} {c : Char} (h : c ∈ Nat.toDigits 10 n) :
    isDecimal c = true :=
  isDecimal_of_isDigit (Nat.isDigit_of_mem_toDigits (by decide) (by decide) h)

theorem trim_eq_self {cs : List Char} (hhead : ∀ c ∈ cs.head?, isBlank c = false)
    (hlast : ∀ c ∈ cs.getLast?, isBlank c = false) : trim cs = cs := by
  have hkeep : ∀ as : List Char, (∀ c ∈ as.head?, isBlank c = false) →
      as.dropWhile isBlank = as := by
    intro as has
    cases as with
    | nil => rfl
    | cons a as => simp [has a rfl]
  rw [trim, trimEnd, hkeep cs hhead, hkeep cs.reverse (by simpa using hlast), reverse_reverse]

/-- A number is read from its digits, unless there are too many. -/
theorem number_toDigits_eq_ok_iff {n m : Nat} :
    number (Nat.toDigits 10 n) = .ok m ↔ n < 10 ^ digitLimit ∧ m = n := by
  have hlength : (Nat.toDigits 10 n).length ≤ digitLimit ↔ n < 10 ^ digitLimit :=
    Nat.length_toDigits_le_iff (by decide) (by decide)
  have hpoint : '.' ∉ Nat.toDigits 10 n := by
    intro hmem
    exact absurd (isDecimal_of_mem_toDigits hmem) (by decide)
  have hexists := @exists_readWhole_iff (Nat.toDigits 10 n) Nat.toDigits_ne_nil
    fun _ => isDecimal_of_mem_toDigits
  rw [hlength] at hexists
  cases hwhole : Decimal.readWhole (String.ofList (Nat.toDigits 10 n)) with
  | error e =>
    have hlong : ¬n < 10 ^ digitLimit := by simpa [hwhole] using hexists
    simp [number, hwhole, hlong]
  | ok i =>
    have hn : n < 10 ^ digitLimit := hexists.mp ⟨i, hwhole⟩
    have hshort : isShort n = true := by
      rw [isShort, decide_eq_true_eq, ← String.length_toList, Nat.toList_repr]
      exact hlength.mpr hn
    have hread := numberOf_repr hshort
    rw [numberOf, Nat.toList_repr, if_neg (by simpa using hpoint), Nat.repr_eq_ofList_toDigits,
      hwhole] at hread
    obtain rfl : i = n := by simpa using hread
    simp [number, hwhole, hn, eq_comm]

/-- A recurrence is made of its digits unless there are too many. -/
theorem Divide.ofFit_eq_ok_iff {a b : Nat} {run : List Char} {d : Option Divide} :
    ofFit [Nat.toDigits 10 a, Nat.toDigits 10 b, run] = .ok d
      ↔ a < 10 ^ digitLimit ∧ b < 10 ^ digitLimit
        ∧ d = some ⟨a, b, String.ofList (trim run)⟩ := by
  simp only [ofFit, ofRuns, bind_eq_ok_iff, pure_eq_ok_iff, number_toDigits_eq_ok_iff]
  constructor
  · rintro ⟨_, ⟨_, ⟨ha, rfl⟩, _, ⟨hb, rfl⟩, rfl⟩, rfl⟩
    exact ⟨ha, hb, rfl⟩
  · rintro ⟨ha, hb, rfl⟩
    exact ⟨_, ⟨a, ⟨ha, rfl⟩, b, ⟨hb, rfl⟩, rfl⟩, rfl⟩

/-! ### Pieces -/

section Pieces

variable {ps : Template} {rest tail : List Char} {runs : List (List Char)} (s : Spacing)

/-- Templates whose first piece needs a character that is no blank. -/
def IsSolid (t : Template) : Prop :=
  ∃ q ps, t = q :: ps ∧ 1 ≤ q.least ∧ ∀ c, isBlank c = true → q.accepts c = false

theorem isSolid_char {c : Char} (hc : isBlank c = false) : IsSolid (.char c :: ps) := by
  refine ⟨_, _, rfl, Nat.le_refl 1, fun d hd => ?_⟩
  simp only [Piece.char, beq_eq_false_iff_ne]
  rintro rfl
  exact absurd hd (by simp [hc])

theorem isSolid_digits : IsSolid (digits :: ps) := by
  refine ⟨_, _, rfl, Nat.le_refl 1, fun c hc => ?_⟩
  show isDecimal c = false
  cases hdecimal : isDecimal c with
  | false => rfl
  | true =>
    rw [not_isBlank_of_isDecimal hdecimal] at hc
    exact absurd hc (by simp)

/-- Blanks are passed over before what is no blank. -/
theorem fit_blanks {blank : List Char} (hps : IsSolid ps) (hblank : ∀ c ∈ blank, isBlank c = true)
    (hrest : ∀ c ∈ rest.head?, isBlank c = false) :
    fit (blanks :: ps) (blank ++ rest) = fit ps rest := by
  obtain ⟨q, ps', rfl, hleast, hq⟩ := hps
  exact fit_skip hleast hq hblank hrest

/-- The left side of an equation, before something that is no blank. -/
theorem fit_head (hps : IsSolid ps) (hrest : ∀ c ∈ rest.head?, isBlank c = false) :
    fit (head ++ ps) (s.equation rest) = fit ps rest := by
  rw [show head = text "T(n)" ++ [blanks, .char '=', blanks] from rfl, append_assoc,
    Spacing.equation, fit_text]
  show fit (blanks :: .char '=' :: blanks :: ps) _ = _
  rw [fit_blanks (isSolid_char (by decide)) s.isBlank_beforeEquals (by simp; decide), fit_char,
    fit_blanks hps s.isBlank_afterEquals hrest]

/-- The plus sign, before something that is no blank. -/
theorem fit_plus (hrest : ∀ c ∈ rest.head?, isBlank c = false)
    (h : fit ps rest = some (runs, tail)) :
    fit (plus ++ ps) (s.beforePlus ++ '+' :: (s.afterPlus ++ rest)) = some (runs, tail) := by
  show fit (blanks :: .char '+' :: blanks :: ps) _ = _
  rw [fit_blanks (isSolid_char (by decide)) s.isBlank_beforePlus (by simp; decide), fit_char]
  exact fit_greedy rfl (Nat.zero_le _) (Piece.limit_append rfl s.isBlank_afterPlus hrest) h

/-- The digits of a number, before something that is no digit. -/
theorem fit_digits (n : Nat) (hrest : ∀ c ∈ rest.head?, isDecimal c = false)
    (h : fit ps rest = some (runs, tail)) :
    fit (digits :: ps) (Nat.toDigits 10 n ++ rest) = some (Nat.toDigits 10 n :: runs, tail) :=
  fit_longest Nat.toDigits_ne_nil (fun _ => isDecimal_of_mem_toDigits) hrest h

/-- The call `T(n/b)`. -/
theorem fit_divided (b : Nat) (h : fit ps rest = some (runs, tail)) :
    fit (divided ++ ps) (Spacing.dividedCall b rest)
      = some (Nat.toDigits 10 b :: runs, tail) := by
  rw [show divided = text "T(n/" ++ [digits, .char ')'] from rfl, append_assoc,
    Spacing.dividedCall, fit_text]
  apply fit_digits b
  · simp
    decide
  · show fit (.char ')' :: ps) (')' :: rest) = _
    rw [fit_char]
    exact h

/-- A coefficient right before a call. -/
theorem fit_coefficient (a : Nat) (hrest : rest.head? = some 'T')
    (h : fit ps rest = some (runs, tail)) : fit (coefficient ++ ps) (Nat.toDigits 10 a ++ rest)
      = some (Nat.toDigits 10 a :: runs, tail) := by
  have hblank : ∀ c ∈ rest.head?, isBlank c = false := by
    rw [hrest]
    simp
    decide
  have hblanks : ∀ {ps : Template} {runs : List (List Char)}, fit ps rest = some (runs, tail) →
      fit (blanks :: ps) rest = some (runs, tail) := by
    intro ps runs hps
    exact @fit_greedy _ _ [] _ _ _ rfl (Nat.zero_le _)
      (Piece.limit_append rfl (by simp) hblank) hps
  have hstar : (Piece.optional '*').limit rest = 0 := by
    cases rest with
    | nil => simp [Piece.optional, Piece.limit]
    | cons c cs =>
      obtain rfl : c = 'T' := by simpa using hrest
      simp [Piece.optional, Piece.limit]
  apply fit_digits a
  · rw [hrest]
    simp
    decide
  · apply hblanks
    exact @fit_greedy _ _ [] _ _ _ rfl (Nat.zero_le _) hstar (hblanks h)

variable {cost : String}

/-- What stands in parentheses, up to the first that closes. -/
theorem fit_brief (hcost : IsCost cost) :
    fit [brief, .char ')'] (cost.toList ++ [')']) = some ([cost.toList], []) := by
  have htakes : brief.Takes cost.toList := by
    refine ⟨fun c hc => ?_, length_pos_iff.mpr hcost.nonempty, by simp [brief, Piece.shortest]⟩
    have hne : c ≠ '\n' := by
      rintro rfl
      exact hcost.unbroken hc
    simpa [brief, Piece.shortest, inLine] using hne
  apply fit_shortest rfl htakes
  · -- inside the cost there is no parenthesis that closes
    intro k _ hk
    cases hdrop : cost.toList.drop k with
    | nil =>
      rw [drop_eq_nil_iff] at hdrop
      omega
    | cons c cs =>
      apply fit_char_of_ne
      rintro rfl
      have hmem : ')' ∈ cost.toList.drop k := by
        rw [hdrop]
        exact mem_cons_self
      exact hcost.unclosed (mem_of_mem_drop hmem)
  · rw [fit_char]
    rfl

theorem fit_order (hcost : IsCost cost) :
    fit order ("O(".toList ++ (cost.toList ++ [')'])) = some ([cost.toList], []) := by
  rw [order, fit_text]
  exact fit_brief hcost

/-- The rest of a line. -/
theorem fit_anything (hcost : IsCost cost) : fit [anything] ("O(".toList ++ (cost.toList ++ [')']))
      = some (["O(".toList ++ (cost.toList ++ [')'])], []) := by
  have hline : ∀ c ∈ "O(".toList ++ (cost.toList ++ [')']), inLine c = true := by
    intro c hc
    have hne : c ≠ '\n' := by
      rintro rfl
      rcases mem_append.mp hc with hc | hc
      · exact absurd hc (by decide)
      · rcases mem_append.mp hc with hc | hc
        · exact hcost.unbroken hc
        · exact absurd hc (by decide)
    simpa [inLine] using hne
  have hfit := @fit_longest [] _ [] _ _ inLine (by simp) hline (by simp) rfl
  rwa [append_nil] at hfit

end Pieces

/-! ### Readings -/

section Readings

variable {a b k : Nat} {cost : String} (s : Spacing)

attribute [local simp] List.getLast?_append List.getLast?_cons Piece.optional Piece.limit

theorem head_toDigits_append (n : Nat) (rest : List Char) :
    ∀ c ∈ (Nat.toDigits 10 n ++ rest).head?, isBlank c = false := by
  intro c hc
  obtain ⟨d, ds, hdigits⟩ := exists_cons_of_ne_nil (@Nat.toDigits_ne_nil n 10)
  obtain rfl : d = c := by simpa [hdigits] using hc
  apply not_isBlank_of_isDecimal
  exact isDecimal_of_mem_toDigits (hdigits ▸ mem_cons_self)

/-- An equation starts with a letter and ends with a parenthesis. -/
theorem trim_equation {right : List Char} (hright : right.getLast? = some ')') :
    trim (s.equation right) = s.equation right := by
  have hlast : (s.equation right).getLast? = some ')' := by
    simp [Spacing.equation, hright]
  apply trim_eq_self
  · intro c hc
    obtain rfl : 'T' = c := by simpa [Spacing.equation] using hc
    decide
  · rw [hlast]
    simp
    decide

theorem getLast?_summand (cost : String) : (s.summand cost).getLast? = some ')' := by
  simp [Spacing.summand]

theorem getLast?_dividedCall {rest : List Char} (h : rest.getLast? = some ')') :
    (Spacing.dividedCall b rest).getLast? = some ')' := by
  simp [Spacing.dividedCall, h]

/-- The cost after the plus sign, for templates that look for `O(f)`. -/
theorem fit_summand (hcost : IsCost cost) :
    fit (plus ++ order) (s.summand cost) = some ([cost.toList], []) := by
  apply fit_plus s
  · simp
    decide
  · exact fit_order hcost

variable {ps : Template}

/-- The left side and the coefficient, for templates that want digits right before the call. -/
theorem fit_equation_digits {runs : List (List Char)} {rest tail : List Char}
    (hrest : rest.head? = some 'T') (h : fit ps rest = some (runs, tail)) :
    fit (head ++ digits :: ps) (s.equation (Nat.toDigits 10 a ++ rest))
      = some (Nat.toDigits 10 a :: runs, tail) := by
  rw [fit_head s isSolid_digits (head_toDigits_append a rest)]
  apply fit_digits a
  · rw [hrest]
    simp
    decide
  · exact h

theorem search_branching (hcost : IsCost cost) :
    search (head ++ coefficient ++ divided ++ plus ++ order)
        (s.equation (Nat.toDigits 10 a ++ Spacing.dividedCall b (s.summand cost)))
      = some [Nat.toDigits 10 a, Nat.toDigits 10 b, cost.toList] := by
  have hfit : fit (coefficient ++ (divided ++ (plus ++ order)))
      (Nat.toDigits 10 a ++ Spacing.dividedCall b (s.summand cost))
        = some ([Nat.toDigits 10 a, Nat.toDigits 10 b, cost.toList], []) :=
    fit_coefficient a rfl (fit_divided b (fit_summand s hcost))
  have hsolid : IsSolid (coefficient ++ (divided ++ (plus ++ order))) := isSolid_digits
  rw [← fit_head s hsolid (head_toDigits_append a _)] at hfit
  simp only [append_assoc]
  exact search_of_fit hfit

/-- **A recurrence with a coefficient** is read as it is written. -/
theorem Divide.read_branching (ha : a < 10 ^ digitLimit) (hb : b < 10 ^ digitLimit)
    (hcost : IsCost cost) : Divide.read (s.branching a b cost) = .ok (some ⟨a, b, cost⟩) := by
  have hlast : (Nat.toDigits 10 a ++ Spacing.dividedCall b (s.summand cost)).getLast?
      = some ')' := by
    simp [getLast?_dividedCall (getLast?_summand s cost)]
  have htrim := trim_equation s hlast
  have hcosttrim := trim_eq_self hcost.head hcost.last
  simp only [Divide.read, Spacing.branching, String.toList_ofList, htrim, Divide.forms,
    findSome?_cons, search_branching s hcost]
  exact Divide.ofFit_eq_ok_iff.mpr ⟨ha, hb, by rw [hcosttrim, String.ofList_toList]⟩

/-- The template for a coefficient right before the call finds the coefficient, the divisor and
    what its end finds. -/
theorem search_digits_branching {run : List Char}
    (hps : fit (plus ++ ps) (s.summand cost) = some ([run], [])) :
    search (head ++ [digits] ++ divided ++ plus ++ ps)
        (s.equation (Nat.toDigits 10 a ++ Spacing.dividedCall b (s.summand cost)))
      = some [Nat.toDigits 10 a, Nat.toDigits 10 b, run] := by
  have hfit := fit_equation_digits (a := a) s rfl (fit_divided b hps)
  simp only [append_assoc]
  exact search_of_fit hfit

/-- Trees are drawn for the recurrence as it is written. -/
theorem Tree.read_branching (hcost : IsCost cost) : Tree.read (s.branching a b cost)
      = Divide.ofFit [Nat.toDigits 10 a, Nat.toDigits 10 b, cost.toList] := by
  have hend : fit (plus ++ [.optional 'O', .char '(', brief, .char ')']) (s.summand cost)
      = some ([cost.toList], []) := by
    apply fit_plus s
    · simp
      decide
    · have hinner : fit [.char '(', brief, .char ')'] ('(' :: (cost.toList ++ [')']))
          = some ([cost.toList], []) := by
        rw [fit_char]
        exact fit_brief hcost
      have hlimit : (Piece.optional 'O').limit (['O'] ++ '(' :: (cost.toList ++ [')'])) = 1 := by
        simp
      exact @fit_greedy _ _ ['O'] _ _ _ rfl (Nat.zero_le _) hlimit hinner
  simp only [Tree.read, Tree.form, Spacing.branching, String.toList_ofList,
    search_digits_branching s hend]

/-- The recurrence is expanded as it is written, and its cost with the letter `O`. -/
theorem Substitution.readDivide_branching (ha : a < 10 ^ digitLimit)
    (hb : b < 10 ^ digitLimit) (hcost : IsCost cost) :
    Substitution.readDivide (s.branching a b cost)
      = .ok (some ⟨a, b, "O(" ++ cost ++ ")"⟩) := by
  have hend : fit (plus ++ [anything]) (s.summand cost)
      = some (["O(".toList ++ (cost.toList ++ [')'])], []) := by
    apply fit_plus s
    · simp
      decide
    · exact fit_anything hcost
  have htrim : trim ("O(".toList ++ (cost.toList ++ [')']))
      = "O(".toList ++ (cost.toList ++ [')']) := by
    apply trim_eq_self
    · simp
      decide
    · rw [← append_assoc, getLast?_concat]
      simp
      decide
  have htext : String.ofList ("O(".toList ++ (cost.toList ++ [')'])) = "O(" ++ cost ++ ")" := by
    apply String.toList_injective
    simp
  simp only [Substitution.readDivide, Substitution.divideForm, Spacing.branching,
    String.toList_ofList, search_digits_branching s hend]
  exact Divide.ofFit_eq_ok_iff.mpr ⟨ha, hb, by rw [htrim, htext]⟩

/-! ### Recurrences without a coefficient -/

/-- The parentheses that close in a recurrence with a divisor, after its left side. -/
theorem count_after_left (hcost : IsCost cost) :
    (s.beforeEquals ++ '=' :: (s.afterEquals ++ Spacing.dividedCall b (s.summand cost))).count ')'
      = 2 := by
  have hblank : ∀ {w : List Char}, (∀ c ∈ w, isBlank c = true) → w.count ')' = 0 := by
    intro w hw
    rw [count_eq_zero]
    intro hmem
    exact absurd (hw _ hmem) (by decide)
  have hdigits : (Nat.toDigits 10 b).count ')' = 0 := by
    rw [count_eq_zero]
    intro hmem
    exact absurd (isDecimal_of_mem_toDigits hmem) (by decide)
  have hinner : cost.toList.count ')' = 0 := count_eq_zero.mpr hcost.unclosed
  simp [Spacing.dividedCall, Spacing.summand, hblank s.isBlank_beforeEquals,
    hblank s.isBlank_afterEquals, hblank s.isBlank_beforePlus, hblank s.isBlank_afterPlus, hdigits,
    hinner]

/-- The template with a coefficient has three parentheses that close. -/
theorem spends_branching :
    Spends (head ++ (coefficient ++ (divided ++ (plus ++ order)))) ')' 3 := by
  have hhead : Spends head ')' 1 := (spends_text "T(n)" ')').append (spends_zero _ ')')
  have hclosed : ∀ t : String, ∀ p : Piece, Spends (text t ++ [p, .char ')']) ')' 1 := by
    intro t p
    rw [show text t ++ [p, .char ')'] = (text t ++ [p]) ++ [.char ')'] by simp]
    exact (spends_zero _ ')').append (spends_char ')')
  exact hhead.append ((spends_zero coefficient ')').append
    ((hclosed "T(n/" digits).append ((spends_zero plus ')').append (hclosed "O(" brief))))

/-- **No coefficient is found** in a recurrence without one, wherever it is looked for. -/
theorem search_single_eq_none (hcost : IsCost cost) :
    search (head ++ coefficient ++ divided ++ plus ++ order)
      (s.equation (Spacing.dividedCall b (s.summand cost))) = none := by
  simp only [append_assoc]
  rw [search_eq_none_iff]
  intro rest hrest
  have hletter : ∀ {d : Char} {cs : List Char}, d ≠ 'T' →
      fit (head ++ (coefficient ++ (divided ++ (plus ++ order)))) (d :: cs) = none :=
    fun hd => fit_char_of_ne hd _
  rw [Spacing.equation, show "T(n)".toList = ['T', '(', 'n', ')'] from rfl] at hrest
  simp only [cons_append, nil_append, suffix_cons_iff] at hrest
  rcases hrest with rfl | rfl | rfl | rfl | hrest
  · -- the whole text: digits are wanted where the call stands
    refine (fit_head s isSolid_digits ?_).trans (fit_of_refused (Nat.le_refl 1) ?_)
    · simp [Spacing.dividedCall]
      decide
    · simp [Spacing.dividedCall, digits, Piece.longest]
      decide
  · exact hletter (by decide)
  · exact hletter (by decide)
  · exact hletter (by decide)
  · -- after the left side there are too few parentheses
    apply spends_branching.fit_eq_none
    have hle := hrest.sublist.count_le ')'
    rw [count_after_left s hcost] at hle
    omega

/-- **A recurrence without a coefficient** makes one call. -/
theorem Divide.read_single (hb : b < 10 ^ digitLimit) (hcost : IsCost cost) :
    Divide.read (s.single b cost) = .ok (some ⟨1, b, cost⟩) := by
  have htrim := trim_equation s (getLast?_dividedCall (b := b) (getLast?_summand s cost))
  have hcosttrim := trim_eq_self hcost.head hcost.last
  have hsearch : search (head ++ divided ++ plus ++ order)
      (s.equation (Spacing.dividedCall b (s.summand cost)))
        = some [Nat.toDigits 10 b, cost.toList] := by
    have hfit := fit_divided b (fit_summand s hcost)
    have hsolid : IsSolid (divided ++ (plus ++ order)) := isSolid_char (c := 'T') (by decide)
    rw [← fit_head s hsolid (by simp [Spacing.dividedCall]; decide)] at hfit
    simp only [append_assoc]
    exact search_of_fit hfit
  simp only [Divide.read, Spacing.single, String.toList_ofList, htrim, Divide.forms,
    findSome?_cons, search_single_eq_none s hcost, hsearch]
  -- the coefficient that is not written counts as the digit one
  show Divide.ofFit [Nat.toDigits 10 1, Nat.toDigits 10 b, cost.toList] = _
  have hone : 1 < 10 ^ digitLimit := Nat.one_lt_pow (by decide) (by decide)
  exact Divide.ofFit_eq_ok_iff.mpr ⟨hone, hb, by rw [hcosttrim, String.ofList_toList]⟩

/-- **A linear recurrence** is read as it is written. -/
theorem Linear.read_linear (hk : k < 10 ^ digitLimit) (hcost : IsCost cost) :
    Linear.read (s.linear k cost) = .ok (some ⟨k, cost⟩) := by
  have hcosttrim := trim_eq_self hcost.head hcost.last
  have hfit : fit (digits :: .char ')' :: (plus ++ order))
      (Nat.toDigits 10 k ++ ')' :: s.summand cost)
        = some ([Nat.toDigits 10 k, cost.toList], []) := by
    apply fit_digits k
    · simp
      decide
    · rw [fit_char]
      exact fit_summand s hcost
  have hsearch : form.search (s.equation (Spacing.reducedCall k (s.summand cost)))
      = some [Nat.toDigits 10 k, cost.toList] := by
    have hminus : fit (blanks :: .char '-' :: blanks :: digits :: .char ')' :: (plus ++ order))
        ('-' :: (Nat.toDigits 10 k ++ ')' :: s.summand cost))
          = some ([Nat.toDigits 10 k, cost.toList], []) := by
      rw [← nil_append ('-' :: _), fit_blanks (isSolid_char (by decide)) (by simp)
        (by simp; decide), fit_char, ← nil_append (Nat.toDigits 10 k ++ _),
        fit_blanks isSolid_digits (by simp) (head_toDigits_append k _)]
      exact hfit
    have hcall : fit (text "T(n" ++ ([blanks, .char '-', blanks, digits, .char ')']
        ++ (plus ++ order))) (Spacing.reducedCall k (s.summand cost))
          = some ([Nat.toDigits 10 k, cost.toList], []) :=
      (fit_text "T(n" _ _).trans hminus
    have hsolid : IsSolid (text "T(n" ++ ([blanks, .char '-', blanks, digits, .char ')']
        ++ (plus ++ order))) := isSolid_char (c := 'T') (by decide)
    rw [← fit_head s hsolid (by simp [Spacing.reducedCall]; decide)] at hcall
    simp only [Linear.form, append_assoc]
    exact search_of_fit hcall
  simp only [Linear.read, Spacing.linear, String.toList_ofList, hsearch,
    number_toDigits_eq_ok_iff.mpr ⟨hk, rfl⟩, hcosttrim, String.ofList_toList]
  rfl

end Readings

end Ordo.Recurrence
