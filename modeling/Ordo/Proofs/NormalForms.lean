import Ordo.Proofs.CacheKeys
import Ordo.Proofs.Passages
import Ordo.Proofs.Shrinkage

namespace Ordo

/-!
# Normal forms of sums

A text in normal form has single spaces between its words, and none in a cost of one word.  To take
the blanks out of a cost makes no other cost: a cost starts with a bracket after its letter, which
no word has.

* `Text.IsSpaced`, `Text.intercalate_wordsFrom` — single spaces between words;
* `Summation.LooseCost`, `Summation.fit_chars` — costs with blanks in them, and how they are found;
* `Summation.tighten_induction` — induction on taking the blanks out of costs;
* `Summation.IsTight`, `Summation.isTight_replace` — no cost is left with blanks in it;
* `Summation.normalize_idempotent` — normal forms stay as they are.
-/

open List

namespace Text

variable {cs ds before after pattern : List Char} {c x y : Char}

/-- What begins with two characters begins after those that are not the second one. -/
theorem infix_of_infix_append_cons (hbefore : y ∉ before) (hx : x ≠ c) (hy : y ≠ c)
    (h : x :: y :: pattern <:+: before ++ c :: after) : x :: y :: pattern <:+: after := by
  induction before with
  | nil =>
    refine (infix_cons_iff.mp h).resolve_left fun hstart => ?_
    exact hx (cons_prefix_cons.mp hstart).1
  | cons b before ih =>
    rw [mem_cons, not_or] at hbefore
    refine (infix_cons_iff.mp h).elim (fun hstart => ?_) (ih hbefore.2)
    have hnext := (cons_prefix_cons.mp hstart).2
    cases before with
    | nil => exact absurd (cons_prefix_cons.mp hnext).1 hy
    | cons d before =>
      obtain ⟨rfl, -⟩ := cons_prefix_cons.mp hnext
      exact absurd mem_cons_self hbefore.2

theorem squeeze_cons (h : isBlank c = false) (cs : List Char) :
    squeeze (c :: cs) = c :: squeeze cs := by
  simp [squeeze, h]

/-! ### Single spaces -/

/-- Every blank is a space before a character that is no blank. -/
def IsSpaced : List Char → Prop
  | [] => True
  | c :: cs => (isBlank c = true → c = ' ' ∧ ∃ d ∈ cs.head?, isBlank d = false) ∧ IsSpaced cs

theorem isSpaced_append (hcs : ∀ c ∈ cs, isBlank c = false) (hds : IsSpaced ds) :
    IsSpaced (cs ++ ds) := by
  induction cs with
  | nil => exact hds
  | cons c cs ih =>
    rw [forall_mem_cons] at hcs
    exact ⟨by simp [hcs.1], ih hcs.2⟩

theorem IsSpaced.of_append (h : IsSpaced (cs ++ ds)) : IsSpaced ds := by
  induction cs with
  | nil => exact h
  | cons c cs ih => exact ih h.2

/-- The words of a text have single spaces between them, after what the first one starts with. -/
theorem exists_isSpaced_wordsFrom (piece cs : List Char) :
    ∃ rest, [' '].intercalate (wordsFrom piece cs) = piece.reverse ++ rest ∧ IsSpaced rest
      ∧ (piece = [] → wordsFrom piece cs ≠ [] → ∃ c ∈ rest.head?, isBlank c = false) := by
  induction cs generalizing piece with
  | nil => exact ⟨[], by cases piece <;> simp [wordsFrom], trivial, by simp +contextual [wordsFrom]⟩
  | cons c cs ih =>
    rw [wordsFrom]
    cases hc : isBlank c with
    | false =>
      obtain ⟨rest, hrest, hspaced, -⟩ := ih (c :: piece)
      exact ⟨c :: rest, by simpa using hrest, ⟨by simp [hc], hspaced⟩, fun _ _ => ⟨c, rfl, hc⟩⟩
    | true =>
      obtain ⟨rest, hrest, hspaced, hstart⟩ := ih []
      cases piece with
      | nil => exact ⟨rest, hrest, hspaced, fun _ => hstart rfl⟩
      | cons d piece =>
        by_cases hnil : wordsFrom [] cs = []
        · exact ⟨[], by simp [hnil], trivial, by simp⟩
        · refine ⟨' ' :: rest, ?_, ⟨fun _ => ⟨rfl, hstart rfl hnil⟩, hspaced⟩, by simp⟩
          simpa [intercalate_cons_of_ne_nil hnil] using hrest

/-- A text with single spaces is its words. -/
theorem intercalate_wordsFrom (piece : List Char) (hcs : IsSpaced cs)
    (hstart : piece = [] → ∀ c ∈ cs.head?, isBlank c = false) :
    [' '].intercalate (wordsFrom piece cs) = piece.reverse ++ cs := by
  induction cs generalizing piece with
  | nil => cases piece <;> simp [wordsFrom]
  | cons c cs ih =>
    rw [wordsFrom]
    cases hblank : isBlank c with
    | false => simpa using ih (c :: piece) hcs.2 (by simp)
    | true =>
      have hpiece : piece ≠ [] := fun hnil => by simpa [hblank] using hstart hnil c rfl
      obtain ⟨hc, hcs⟩ := hcs
      obtain ⟨rfl, d, hd, hsolid⟩ := hc hblank
      obtain ⟨ds, rfl⟩ := head?_eq_some_iff.mp hd
      have hne : wordsFrom [] (d :: ds) ≠ [] := by
        rw [wordsFrom, hsolid]
        exact Cache.wordsFrom_ne_nil (cons_ne_nil d []) ds
      have hwords := ih [] hcs fun _ => by simpa using hsolid
      simp [hpiece, intercalate_cons_of_ne_nil hne, hwords]

end Text

namespace Summation

open Text Text.Template
open Recurrence (blanks fit_blanks isSolid_char)

/-! ### Costs with blanks in them -/

theorem not_isWord_of_isBlank {c : Char} (h : isBlank c = true) : isWord c = false := by
  have hall : ∀ n ∈ range 128 ++ wideBlanks, isBlank (Char.ofNat n) = true →
      isWord (Char.ofNat n) = false := by decide +kernel
  rw [← Char.ofNat_toNat c] at h ⊢
  refine hall c.toNat (mem_append.mpr ?_) h
  rw [Char.ofNat_toNat, isBlank] at h
  split at h
  · exact .inl (mem_range.mpr ‹_›)
  · exact .inr (by simpa using h)

/-- A cost of one word, with the blanks that may be in it. -/
structure LooseCost where
  beforeOpen : List Char
  afterOpen : List Char
  word : List Char
  beforeClose : List Char
  isBlank_gaps : ∀ c ∈ beforeOpen ++ (afterOpen ++ beforeClose), isBlank c = true
  isWord_word : ∀ c ∈ word, isWord c = true
  word_ne_nil : word ≠ []

namespace LooseCost

variable (l : LooseCost)

/-- The blanks in a cost. -/
def gaps : List Char := l.beforeOpen ++ (l.afterOpen ++ l.beforeClose)

/-- What stands between the brackets. -/
def inner : List Char := l.afterOpen ++ (l.word ++ l.beforeClose)

/-- A cost after its letter. -/
def tail : List Char := l.beforeOpen ++ '(' :: (l.inner ++ [')'])

def chars : List Char := 'O' :: l.tail

/-- The cost without blanks. -/
def tight : LooseCost := ⟨[], [], l.word, [], by simp, l.isWord_word, l.word_ne_nil⟩

variable {l}

theorem chars_tight : l.tight.chars = "O(".toList ++ l.word ++ [')'] := by
  simp [chars, tail, inner, tight]

theorem chars_eq_tight (h : l.gaps = []) : l.chars = l.tight.chars := by
  simp only [gaps, append_eq_nil_iff] at h
  simp [chars, tail, inner, tight, h]

theorem squeeze_chars : squeeze l.chars = squeeze l.tight.chars := by
  have hgaps := l.isBlank_gaps
  rw [forall_mem_append, forall_mem_append] at hgaps
  simp [chars, tail, inner, tight, @squeeze_cons 'O' rfl, @squeeze_cons '(' rfl,
    squeeze_of_isBlank hgaps.1, squeeze_of_isBlank hgaps.2.1, squeeze_of_isBlank hgaps.2.2]

theorem not_isBlank_of_mem_word {c : Char} (hc : c ∈ l.word) : isBlank c = false := by
  cases hblank : isBlank c with
  | false => rfl
  | true => simpa [l.isWord_word c hc] using not_isWord_of_isBlank hblank

end LooseCost

variable {l : LooseCost} {cs out rest : List Char} {runs : List (List Char)}

/-- What fits a template for a cost is one. -/
theorem fits_cost {p : Piece}
    (hp : ∀ run, p.Takes run → run ≠ [] ∧ ∀ c ∈ run, isWord c = true)
    (h : Fits [.char 'O', blanks, .char '(', blanks, p, blanks, .char ')'] cs runs rest) :
    ∃ l : LooseCost, cs = l.chars ++ rest ∧ p.Takes l.word ∧ runs = p.record l.word [] := by
  obtain ⟨_, rfl, h₁⟩ := h.of_char
  obtain ⟨beforeOpen, _, _, hbeforeOpen, rfl, rfl, h₂⟩ := h₁.cons_inv
  obtain ⟨_, rfl, h₃⟩ := h₂.of_char
  obtain ⟨afterOpen, _, _, hafterOpen, rfl, rfl, h₄⟩ := h₃.cons_inv
  obtain ⟨word, _, _, hword, rfl, rfl, h₅⟩ := h₄.cons_inv
  obtain ⟨beforeClose, _, _, hbeforeClose, rfl, rfl, h₆⟩ := h₅.cons_inv
  obtain ⟨_, rfl, ⟨⟩⟩ := h₆.of_char
  have hgaps : ∀ c ∈ beforeOpen ++ (afterOpen ++ beforeClose), isBlank c = true := by
    rw [forall_mem_append, forall_mem_append]
    exact ⟨hbeforeOpen.accepted, hafterOpen.accepted, hbeforeClose.accepted⟩
  refine ⟨⟨beforeOpen, afterOpen, word, beforeClose, hgaps, (hp word hword).2, (hp word hword).1⟩,
    ?_, hword, rfl⟩
  simp [LooseCost.chars, LooseCost.tail, LooseCost.inner]

/-- A template for costs, of which the word is kept. -/
def TightensTo (t : Template) (write : List (List Char) → List Char) : Prop :=
  ∀ cs runs rest, Fits (.char 'O' :: t) cs runs rest →
    ∃ l : LooseCost, cs = l.chars ++ rest ∧ write runs = l.tight.chars

theorem looseConstant_tightens : TightensTo looseConstant.tail fun _ => "O(1)".toList := by
  intro cs runs rest h
  have hone : ∀ c ∈ ['1'], isWord c = true := forall_mem_singleton.mpr (by decide)
  obtain ⟨l, hcs, hword, -⟩ := fits_cost (p := .char '1') (fun run hrun => by
    rw [takes_char_iff.mp hrun]
    exact ⟨cons_ne_nil '1' [], hone⟩) h
  exact ⟨l, hcs, by rw [l.chars_tight, takes_char_iff.mp hword]; rfl⟩

theorem looseWord_tightens :
    TightensTo looseWord.tail fun runs => "O(".toList ++ runs.flatten ++ [')'] := by
  intro cs runs rest h
  obtain ⟨l, hcs, -, rfl⟩ := fits_cost (p := .longest isWord) (fun run hrun =>
    ⟨ne_nil_of_length_pos hrun.enough, hrun.accepted⟩) h
  exact ⟨l, hcs, by simp [l.chars_tight, Piece.record, Piece.longest]⟩

/-- A cost is found where it stands. -/
theorem fit_chars (l : LooseCost) (rest : List Char) :
    looseWord.fit (l.chars ++ rest) = some ([l.word], rest) := by
  have hgaps := l.isBlank_gaps
  rw [forall_mem_append, forall_mem_append] at hgaps
  obtain ⟨hbeforeOpen, hafterOpen, hbeforeClose⟩ := hgaps
  have hsolid : Recurrence.IsSolid [.longest isWord, blanks, .char ')'] :=
    ⟨_, _, rfl, Nat.le_refl 1, fun _ => not_isWord_of_isBlank⟩
  have hstart : ∀ c ∈ (l.word ++ (l.beforeClose ++ ')' :: rest)).head?, isBlank c = false := by
    rw [head?_append_of_ne_nil _ l.word_ne_nil]
    exact fun c hc => LooseCost.not_isBlank_of_mem_word (mem_of_mem_head? hc)
  have hend : ∀ c ∈ (l.beforeClose ++ ')' :: rest).head?, isWord c = false := by
    cases h : l.beforeClose with
    | nil => simp; decide
    | cons d ds => simpa using not_isWord_of_isBlank (hbeforeClose d (by simp [h]))
  simp only [looseWord, LooseCost.chars, LooseCost.tail, LooseCost.inner, cons_append,
    append_assoc, nil_append]
  rw [fit_char, fit_blanks (isSolid_char (by decide)) hbeforeOpen (by simp; decide), fit_char,
    fit_blanks hsolid hafterOpen hstart]
  refine fit_longest l.word_ne_nil l.isWord_word hend ?_
  rw [fit_blanks (isSolid_char (by decide)) hbeforeClose (by simp; decide), fit_char]
  rfl

section

variable {t : Template} {write : List (List Char) → List Char} (ht : TightensTo t write)

include ht

/-- **Induction on taking blanks out of costs**, from the end of a text: a cost loses its blanks,
    or a character is kept where no cost starts. -/
theorem tighten_induction {motive : List Char → List Char → Prop} (hnil : motive [] [])
    (hcost : ∀ (l : LooseCost) cs out, motive cs out →
      motive (l.chars ++ cs) (l.tight.chars ++ out))
    (hkeep : ∀ c cs out, fit (.char 'O' :: t) (c :: cs) = none → motive cs out →
      motive (c :: cs) (c :: out)) (cs : List Char) :
    motive cs (replace (.char 'O' :: t) write cs) := by
  suffices h : ∀ skipped, motive (cs.drop skipped)
      (replaceFrom (.char 'O' :: t) write skipped cs) from h 0
  intro skipped
  fun_induction replaceFrom (.char 'O' :: t) write skipped cs with
  | case1 => simpa using hnil
  | case2 skipped c cs ih => exact ih
  | case3 c cs runs rest hfit ih =>
    have hfits := fits_of_fit hfit
    obtain ⟨l, hcs, hwrite⟩ := ht _ runs rest hfits
    obtain ⟨_, ⟨⟩, hafter⟩ := hfits.of_char
    rw [← suffix_iff_eq_drop.mp hafter.suffix] at ih
    rw [drop_zero, hcs, hwrite]
    exact hcost l rest _ ih
  | case4 c cs hfit ih => exact hkeep c cs _ hfit ih

theorem squeeze_tighten (cs : List Char) :
    squeeze (replace (.char 'O' :: t) write cs) = squeeze cs := by
  refine tighten_induction ht (motive := fun cs out => squeeze out = squeeze cs) rfl ?_ ?_ cs
  · intro l cs out ih
    rw [squeeze_append, squeeze_append, ih, l.squeeze_chars]
  · intro c cs out _ ih
    exact (squeeze_append [c] out).trans (ih ▸ squeeze_append [c] cs).symm

/-- Single spaces stay, and so does the first character. -/
theorem isSpaced_tighten (cs : List Char) : (replace (.char 'O' :: t) write cs).head? = cs.head?
    ∧ (IsSpaced cs → IsSpaced (replace (.char 'O' :: t) write cs)) := by
  refine tighten_induction ht
    (motive := fun cs out => out.head? = cs.head? ∧ (IsSpaced cs → IsSpaced out)) ⟨rfl, id⟩
    ?_ ?_ cs
  · rintro l cs out ⟨-, ih⟩
    refine ⟨rfl, fun hcs => isSpaced_append ?_ (ih hcs.of_append)⟩
    have hopen : ∀ c ∈ "O(".toList, isBlank c = false := by simp; decide
    simp only [l.chars_tight, forall_mem_append, forall_mem_singleton]
    exact ⟨⟨hopen, fun c => LooseCost.not_isBlank_of_mem_word⟩, rfl⟩
  · rintro c cs out - ⟨hhead, ih⟩
    exact ⟨rfl, fun hcs => ⟨by rw [hhead]; exact hcs.1, ih hcs.2⟩⟩

end

/-! ### Texts without blanks in their costs -/

/-- No cost of a text has blanks in it. -/
def IsTight (cs : List Char) : Prop := ∀ l : LooseCost, l.chars <:+: cs → l.gaps = []

theorem IsTight.of_append (h : IsTight (cs ++ out)) : IsTight out :=
  fun l hl => h l (hl.trans (suffix_append cs out).isInfix)

/-- Where no cost has blanks, nothing is replaced. -/
theorem IsTight.replace_eq_self {t : Template} {write : List (List Char) → List Char}
    (ht : TightensTo t write) (hcs : IsTight cs) : replace (.char 'O' :: t) write cs = cs := by
  refine tighten_induction ht (motive := fun cs out => IsTight cs → out = cs) (fun _ => rfl)
    ?_ ?_ cs hcs
  · intro l cs out ih hcs
    rw [LooseCost.chars_eq_tight (hcs l (prefix_append ..).isInfix), ih hcs.of_append]
  · intro c cs out _ ih hcs
    rw [ih (@IsTight.of_append [c] cs hcs)]

namespace LooseCost

theorem isBlank_or_isWord {c : Char} (h : c ∈ l.inner) : isBlank c = true ∨ isWord c = true := by
  simp only [inner, mem_append] at h
  rcases h with h | h | h
  · exact .inl (l.isBlank_gaps c (by simp [h]))
  · exact .inr (l.isWord_word c h)
  · exact .inl (l.isBlank_gaps c (by simp [h]))

/-- After the letter of a cost comes neither a word nor a closing bracket. -/
theorem exists_tail_eq_cons (l : LooseCost) :
    ∃ d ds, l.tail = d :: ds ∧ isWord d = false ∧ d ≠ ')' := by
  rw [tail]
  cases h : l.beforeOpen with
  | nil => exact ⟨'(', _, rfl, by decide, by decide⟩
  | cons d ds =>
    have hd : isBlank d = true := l.isBlank_gaps d (by simp [h])
    refine ⟨d, _, rfl, not_isWord_of_isBlank hd, ?_⟩
    rintro rfl
    exact absurd hd (by decide)

/-- No cost without blanks starts in a cost after its letter, or would if an opening bracket
    followed. -/
theorem not_infix_tail (l : LooseCost) : ¬['O', '('] <:+: l.tail ++ ['('] := by
  intro h
  have hopen : 'O' ∉ l.beforeOpen ++ ['('] := by
    intro hmem
    have hblank := l.isBlank_gaps 'O' (mem_append_left _ (by simpa using hmem))
    exact absurd hblank (by decide)
  have hinner : '(' ∉ l.inner := fun hmem => absurd (isBlank_or_isWord hmem) (by decide)
  have hsplit : l.tail ++ ['('] = (l.beforeOpen ++ ['(']) ++ (l.inner ++ ')' :: ['(']) := by
    simp [tail]
  rw [hsplit] at h
  have hlast := infix_of_infix_append_cons hinner (by decide) (by decide)
    (infix_of_infix_append hopen h)
  exact absurd hlast.length_le (by decide)

end LooseCost

/-- A cost without blanks leads to no others. -/
theorem isTight_append (l : LooseCost) (hout : IsTight out) : IsTight (l.tight.chars ++ out) := by
  intro l' hl'
  rcases infix_cons_iff.mp hl' with ⟨rest, hrest⟩ | hafter
  · -- both are found at one place, so they are the same but for the blanks
    change l'.chars ++ rest = l.tight.chars ++ out at hrest
    have hsame := (fit_chars l' rest).symm.trans (hrest ▸ fit_chars l.tight out)
    obtain ⟨hword, rfl⟩ : l'.word = l.tight.word ∧ rest = out := by simpa using hsame
    have hlength := congrArg length (append_cancel_right hrest)
    simp only [LooseCost.chars, LooseCost.tail, LooseCost.inner, hword, LooseCost.tight,
      length_cons, length_append, length_nil] at hlength
    rw [← length_eq_zero_iff, LooseCost.gaps, length_append, length_append]
    omega
  · obtain ⟨d, ds, htail, hd, hclose⟩ := l'.exists_tail_eq_cons
    have hword : d ∉ l.word := fun hmem => by simp [l.isWord_word d hmem] at hd
    have hsplit : l.tight.tail ++ out = ['('] ++ (l.word ++ ')' :: out) := by
      simp [LooseCost.tail, LooseCost.inner, LooseCost.tight]
    change l'.chars <:+: l.tight.tail ++ out at hafter
    refine hout l' ?_
    rw [LooseCost.chars, htail] at hafter ⊢
    rw [hsplit] at hafter
    exact infix_of_infix_append_cons hword (by decide) hclose
      (infix_of_infix_append (by decide) hafter)

/-- **The blanks are taken out of all costs.**  What is written has no costs with blanks, and
    where no cost begins, it is what was there. -/
theorem isTight_replace (cs : List Char) :
    IsTight (looseWord.replace (fun runs => "O(".toList ++ runs.flatten ++ [')']) cs) := by
  let motive (cs out : List Char) : Prop :=
    IsTight out ∧ ∀ part, ¬['O', '('] <:+: part ++ ['('] → part <+: out → part <+: cs
  suffices hmotive : motive cs _ from hmotive.1
  refine tighten_induction (motive := motive) looseWord_tightens ?_ ?_ ?_ cs
  · exact ⟨fun l hl => by simp [LooseCost.chars] at hl, fun _ _ h => h⟩
  · rintro l cs out ⟨hout, -⟩
    refine ⟨isTight_append l hout, fun part hpart hprefix => ?_⟩
    rcases part with _ | ⟨c, _ | ⟨d, part⟩⟩
    · exact nil_prefix
    · obtain ⟨rfl, -⟩ := cons_prefix_cons.mp hprefix
      exact absurd infix_rfl hpart
    · obtain ⟨rfl, hrest⟩ := cons_prefix_cons.mp hprefix
      obtain ⟨rfl, -⟩ := cons_prefix_cons.mp hrest
      exact absurd (prefix_append ['O', '('] _).isInfix hpart
  · rintro c cs out hfit ⟨hout, hparts⟩
    refine ⟨fun l hl => ?_, fun part hpart hprefix => ?_⟩
    · rcases infix_cons_iff.mp hl with hstart | hafter
      · obtain ⟨rfl, htail⟩ := cons_prefix_cons.mp hstart
        obtain ⟨rest, rfl⟩ := hparts _ l.not_infix_tail htail
        cases (fit_chars l rest).symm.trans hfit
      · exact hout l hafter
    · cases part with
      | nil => exact nil_prefix
      | cons d part =>
        obtain ⟨rfl, hrest⟩ := cons_prefix_cons.mp hprefix
        refine cons_prefix_cons.mpr ⟨rfl, hparts part (fun h => hpart ?_) hrest⟩
        exact h.trans (suffix_cons d _).isInfix

/-! ### Normal forms -/

theorem isSpaced_spaced (cs : List Char) :
    IsSpaced (spaced cs) ∧ ∀ c ∈ (spaced cs).head?, isBlank c = false := by
  obtain ⟨rest, hrest, hspaced, hstart⟩ := exists_isSpaced_wordsFrom [] cs
  obtain rfl : spaced cs = rest := hrest
  refine ⟨hspaced, fun c hc => ?_⟩
  by_cases hnil : wordsFrom [] cs = []
  · simp [spaced, words, hnil] at hc
  · obtain ⟨d, hd, hsolid⟩ := hstart rfl hnil
    cases hc.symm.trans hd
    exact hsolid

/-- The form of a text in normal form. -/
theorem isNormal_normalizeChars (cs : List Char) : IsTight (normalizeChars cs)
    ∧ IsSpaced (normalizeChars cs) ∧ ∀ c ∈ (normalizeChars cs).head?, isBlank c = false := by
  obtain ⟨hspaced, hstart⟩ := isSpaced_spaced cs
  have hconstant := isSpaced_tighten looseConstant_tightens (spaced cs)
  have hword := isSpaced_tighten looseWord_tightens
    (looseConstant.replace (fun _ => "O(1)".toList) (spaced cs))
  exact ⟨isTight_replace _, hword.2 (hconstant.2 hspaced),
    fun c hc => hstart c (hconstant.1 ▸ hword.1 ▸ hc)⟩

theorem normalizeChars_eq_self (htight : IsTight cs) (hspaced : IsSpaced cs)
    (hstart : ∀ c ∈ cs.head?, isBlank c = false) : normalizeChars cs = cs := by
  have hwords : spaced cs = cs := intercalate_wordsFrom [] hspaced fun _ => hstart
  have hconstant : looseConstant.replace (fun _ => "O(1)".toList) cs = cs :=
    htight.replace_eq_self looseConstant_tightens
  rw [normalizeChars, hwords, hconstant]
  exact htight.replace_eq_self looseWord_tightens

/-- **Normal forms stay as they are.**  The normal form of a normal form is itself.  A blank in it
    is a single space between other characters, and there is none in a cost of one word. -/
theorem normalize_idempotent (s : String) : normalize (normalize s) = normalize s
    ∧ (∀ before c after, (normalize s).toList = before ++ c :: after → isBlank c = true →
      c = ' ' ∧ before ≠ [] ∧ ∃ d rest, after = d :: rest ∧ isBlank d = false)
    ∧ ∀ l : LooseCost, l.chars <:+: (normalize s).toList → l.gaps = [] := by
  obtain ⟨htight, hspaced, hstart⟩ := isNormal_normalizeChars s.toList
  have hchars : (normalize s).toList = normalizeChars s.toList := String.toList_ofList
  rw [hchars]
  refine ⟨?_, fun before c after h hc => ?_, htight⟩
  · rw [normalize, hchars, normalizeChars_eq_self htight hspaced hstart]
    rfl
  · rw [h] at hspaced hstart
    obtain ⟨rfl, d, hd, hsolid⟩ := hspaced.of_append.1 hc
    refine ⟨rfl, ?_, d, after.tail, (cons_head?_tail hd).symm, hsolid⟩
    rintro rfl
    simp [hc] at hstart

end Summation

end Ordo
