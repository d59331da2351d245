import Mathlib.Data.List.TakeWhile
import Ordo.Syntax.Token

namespace Ordo

/-!
# Cutting a text at its layout

A token never reaches over layout, unless it is a comment, nor over a closing parenthesis.  So what
a text starts with is decided by its characters up to the next of these.

* `endsToken`, `Terminal.lexeme?_append`, `lexIn_append_of_endsTokens` — what ends a token;
* `breaksOff`, `lexIn_append` — layout ends a token;
* `IsNumeral` — how numerals are written;
* `eq_append_of_lexIn` — a token is what the text starts with;
* `lexIn_place` — where a text stands matters for nothing but the place of the token;
* `skipLayout_append` — layout in front of a text is skipped.
-/

open List

open Terminal (spelling? lexeme?)

/-! ### What ends a token -/

/-- Whether a text is over or starts with layout. -/
def breaksOff : List Char → Bool
  | [] => true
  | c :: _ => isLayout c

variable {cs gap rest s l : List Char} {p : Char → Bool} {choices : List (List Char)} {t : Terminal}
  {text : String} {context : Terminal → Bool} {place : Place}

attribute [local simp] Terminal.lexeme? Terminal.spelling? afterPrefix?

theorem breaksOff_append (hgap : ∀ c ∈ gap, isLayout c = true)
    (h : gap = [] → breaksOff cs = true) : breaksOff (gap ++ cs) = true := by
  cases gap with
  | nil => exact h rfl
  | cons c gap => exact hgap c mem_cons_self

/-- Layout and the closing parenthesis.  A token that starts before them ends there, unless it is
    a comment. -/
def endsToken (c : Char) : Bool := isLayout c || c = ')'

/-- Whether a text is over or starts with something that ends a token. -/
def endsTokens : List Char → Bool
  | [] => true
  | c :: _ => endsToken c

theorem endsTokens_of_breaksOff (h : breaksOff cs = true) : endsTokens cs = true := by
  cases cs with
  | nil => rfl
  | cons c cs =>
    have hc : isLayout c = true := h
    simp [endsTokens, endsToken, hc]

/-- A class of characters that has none in it that ends a token. -/
def Seamless (p : Char → Bool) : Prop := ∀ c, endsToken c = true → p c = false

theorem takeWhile_append_of_endsTokens (hp : Seamless p) (s : List Char)
    (hrest : endsTokens rest = true) : (s ++ rest).takeWhile p = s.takeWhile p := by
  induction s with
  | nil =>
    cases rest with
    | nil => rfl
    | cons c cs => simp [hp c hrest]
  | cons c cs ih => simp only [cons_append, takeWhile_cons, ih]

theorem dropWhile_append_of_endsTokens (hp : Seamless p) (s : List Char)
    (hrest : endsTokens rest = true) : (s ++ rest).dropWhile p = s.dropWhile p ++ rest := by
  induction s with
  | nil =>
    cases rest with
    | nil => rfl
    | cons c cs => simp [hp c hrest]
  | cons c cs ih =>
    simp only [cons_append, dropWhile_cons, ih]
    split <;> rfl

/-- The layout characters, one by one. -/
theorem eq_of_isLayout {c : Char} (h : isLayout c = true) :
    c = ' ' ∨ c = '\t' ∨ c = '\x0c' ∨ c = '\r' ∨ c = '\n' := by
  simpa [isLayout, or_assoc] using h

/-- What ends a token, one by one. -/
theorem eq_of_endsToken {c : Char} (h : endsToken c = true) :
    c = ' ' ∨ c = '\t' ∨ c = '\x0c' ∨ c = '\r' ∨ c = '\n' ∨ c = ')' := by
  simpa [endsToken, isLayout, or_assoc] using h

theorem seamless_isNameChar : Seamless isNameChar := by
  intro c hc
  rcases eq_of_endsToken hc with rfl | rfl | rfl | rfl | rfl | rfl <;> decide

theorem seamless_isDecimal : Seamless Text.isDecimal := by
  intro c hc
  rcases eq_of_endsToken hc with rfl | rfl | rfl | rfl | rfl | rfl <;> decide

theorem afterPrefix?_append_of_endsTokens :
    ∀ (p s : List Char) {rest : List Char}, p.any endsToken = false →
      endsTokens rest = true → afterPrefix? p (s ++ rest) = (afterPrefix? p s).map (· ++ rest)
  | [], _, _, _, _ => rfl
  | a :: as, [], rest, hp, hrest => by
    cases rest with
    | nil => rfl
    | cons c cs =>
      have hne : a ≠ c := by
        rintro rfl
        have ha : endsToken a = true := hrest
        simp [ha] at hp
      simp [hne]
  | a :: as, c :: cs, rest, hp, hrest => by
    simp only [any_cons, Bool.or_eq_false_iff] at hp
    simp only [cons_append, afterPrefix?]
    split
    · exact afterPrefix?_append_of_endsTokens as cs hp.2 hrest
    · rfl

theorem firstPrefix?_append_of_endsTokens
    (hchoices : (choices.any fun p => p.any endsToken) = false) (s : List Char)
    (hrest : endsTokens rest = true) : firstPrefix? choices (s ++ rest)
      = (firstPrefix? choices s).map fun q => (q.1, q.2 ++ rest) := by
  unfold firstPrefix?
  induction choices with
  | nil => rfl
  | cons p ps ih =>
    simp only [any_cons, Bool.or_eq_false_iff] at hchoices
    simp only [findSome?_cons, afterPrefix?_append_of_endsTokens p s hchoices.1 hrest]
    cases afterPrefix? p s with
    | some r => rfl
    | none => exact ih hchoices.2

theorem numeral?_append_of_endsTokens (s : List Char) (hrest : endsTokens rest = true) :
    numeral? (s ++ rest) = (numeral? s).map fun q => (q.1, q.2 ++ rest) := by
  simp only [numeral?, takeWhile_append_of_endsTokens seamless_isDecimal _ hrest,
    dropWhile_append_of_endsTokens seamless_isDecimal _ hrest]
  by_cases hempty : (s.takeWhile Text.isDecimal).isEmpty = true
  · simp [hempty]
  · simp only [hempty]
    cases hdrop : s.dropWhile Text.isDecimal with
    | nil =>
      -- the numeral ends where the rest begins, so no point can follow
      cases rest with
      | nil => rfl
      | cons c cs =>
        have hc : c ≠ '.' := by
          rintro rfl
          exact absurd (show endsToken '.' = true from hrest) (by decide)
        simp [hc]
    | cons c cs =>
      by_cases hc : c = '.'
      · subst hc
        simp only [cons_append, takeWhile_append_of_endsTokens seamless_isDecimal _ hrest,
          dropWhile_append_of_endsTokens seamless_isDecimal _ hrest]
        by_cases hfraction : (cs.takeWhile Text.isDecimal).isEmpty = true
        · simp [hfraction]
        · simp [hfraction]
      · simp [hc]

/-- A terminal that is always written the same way is looked for by its text. -/
theorem Terminal.lexeme?_of_spelling (h : t.spelling? = some text) (cs : List Char) :
    t.lexeme? cs = (afterPrefix? text.toList cs).map fun rest => (text.toList, rest) := by
  cases t <;> simp only [spelling?, Option.some.injEq, reduceCtorEq] at h <;>
    subst h <;> rfl

theorem Terminal.not_endsToken_of_spelling (ht : t ≠ .rpar)
    (h : t.spelling? = some text) : text.toList.any endsToken = false := by
  cases t <;> simp only [spelling?, Option.some.injEq, reduceCtorEq] at h <;>
    subst h <;> first | decide | exact absurd rfl ht

/-- The closing parenthesis ends the tokens before it, but is one itself. -/
theorem Terminal.lexeme?_rpar_append (hs : s ≠ [] ∨ breaksOff rest = true) :
    Terminal.rpar.lexeme? (s ++ rest)
      = (Terminal.rpar.lexeme? s).map fun q => (q.1, q.2 ++ rest) := by
  rw [Terminal.lexeme?_of_spelling rfl, Terminal.lexeme?_of_spelling rfl]
  cases s with
  | nil =>
    cases rest with
    | nil => rfl
    | cons c cs =>
      have hc : ')' ≠ c := by
        rintro rfl
        exact absurd (show isLayout ')' = true by simpa [breaksOff] using hs) (by decide)
      simp [hc]
  | cons c cs =>
    simp only [cons_append, String.reduceToList, afterPrefix?]
    split <;> rfl

/-- **What ends a token**, unless it is a comment. -/
theorem Terminal.lexeme?_append (t : Terminal) (hs : s.head? ≠ some '►')
    (hrest : endsTokens rest = true) (hne : s ≠ [] ∨ breaksOff rest = true) :
    t.lexeme? (s ++ rest) = (t.lexeme? s).map fun q => (q.1, q.2 ++ rest) := by
  by_cases hrpar : t = .rpar
  · rw [hrpar]
    exact Terminal.lexeme?_rpar_append hne
  cases hspell : t.spelling? with
  | some text =>
    rw [Terminal.lexeme?_of_spelling hspell, Terminal.lexeme?_of_spelling hspell,
      afterPrefix?_append_of_endsTokens _ _ (Terminal.not_endsToken_of_spelling hrpar hspell) hrest]
    cases afterPrefix? text.toList s <;> rfl
  | none =>
    cases t <;> simp only [spelling?, reduceCtorEq] at hspell
    case cname =>
      cases s with
      | nil =>
        cases rest with
        | nil => rfl
        | cons c cs =>
          have hc : isNameStart c = false := by
            rcases eq_of_endsToken hrest with rfl | rfl | rfl | rfl | rfl | rfl <;> decide
          simp [hc]
      | cons c cs =>
        simp only [cons_append, lexeme?,
          takeWhile_append_of_endsTokens seamless_isNameChar _ hrest,
          dropWhile_append_of_endsTokens seamless_isNameChar _ hrest]
        cases isNameStart c <;> rfl
    case comment =>
      cases s with
      | nil =>
        cases rest with
        | nil => rfl
        | cons c cs =>
          have hc : c ≠ '►' := by
            rintro rfl
            exact absurd (show endsToken '►' = true from hrest) (by decide)
          simp [hc]
      | cons c cs =>
        have hc : c ≠ '►' := by simpa using hs
        simp [hc]
    case number => exact numeral?_append_of_endsTokens s hrest
    case boolean => exact firstPrefix?_append_of_endsTokens (by decide) s hrest
    case null => exact firstPrefix?_append_of_endsTokens (by decide) s hrest
    case assign => exact firstPrefix?_append_of_endsTokens (by decide) s hrest

/-- What a text starts with is decided before whatever ends a token. -/
theorem lexIn_append_of_endsTokens (context : Terminal → Bool) (place : Place)
    (hs : s.head? ≠ some '►') (hrest : endsTokens rest = true)
    (hne : s ≠ [] ∨ breaksOff rest = true) : lexIn context place (s ++ rest)
      = (lexIn context place s).map fun q => (q.1, q.2 ++ rest) := by
  unfold lexIn
  induction Terminal.all with
  | nil => rfl
  | cons t ts ih =>
    simp only [findSome?_cons, Terminal.lexeme?_append t hs hrest hne]
    by_cases ht : context t = true
    · simp only [ht, if_true]
      cases t.lexeme? s with
      | some q => rfl
      | none => exact ih
    · simp only [ht]
      exact ih

/-- What a text starts with is decided before its first layout. -/
theorem lexIn_append (context : Terminal → Bool) (place : Place)
    (hs : s.head? ≠ some '►') (hrest : breaksOff rest = true) : lexIn context place (s ++ rest)
      = (lexIn context place s).map fun q => (q.1, q.2 ++ rest) :=
  lexIn_append_of_endsTokens context place hs (endsTokens_of_breaksOff hrest) (.inr hrest)

/-! ### What is cut off -/

theorem eq_append_of_afterPrefix? : ∀ {p cs rest : List Char}, afterPrefix? p cs = some rest →
    cs = p ++ rest
  | [], _, _, h => by simpa using h
  | _ :: _, [], _, h => by simp at h
  | a :: as, c :: cs, rest, h => by
    rw [afterPrefix?] at h
    split at h
    · rename_i hac
      rw [hac, eq_append_of_afterPrefix? h, cons_append]
    · simp at h

theorem eq_append_of_firstPrefix?
    (hchoices : choices.all (!·.isEmpty) = true) (h : firstPrefix? choices cs = some (l, rest)) :
    l ≠ [] ∧ cs = l ++ rest := by
  obtain ⟨p, hp, hrest⟩ := exists_of_findSome?_eq_some h
  obtain ⟨r, hr, hpair⟩ := Option.map_eq_some_iff.mp hrest
  obtain ⟨rfl, rfl⟩ := Prod.mk.inj hpair
  exact ⟨by simpa using all_eq_true.mp hchoices p hp, eq_append_of_afterPrefix? hr⟩

/-- Digits, and perhaps a point with more digits after it. -/
def IsNumeral (cs : List Char) : Prop :=
  ∃ whole, whole ≠ [] ∧ (∀ c ∈ whole, Text.isDecimal c = true) ∧
    (cs = whole ∨ ∃ fraction, fraction ≠ [] ∧ (∀ c ∈ fraction, Text.isDecimal c = true) ∧
      cs = whole ++ '.' :: fraction)

theorem IsNumeral.ne_nil (h : IsNumeral cs) : cs ≠ [] := by
  obtain ⟨whole, hne, -, rfl | ⟨fraction, -, -, rfl⟩⟩ := h <;> simp [hne]

theorem isNumeral_of_numeral? (h : numeral? cs = some (l, rest)) :
    IsNumeral l ∧ cs = l ++ rest := by
  have htake : ∀ as : List Char, ∀ c ∈ as.takeWhile Text.isDecimal, Text.isDecimal c = true :=
    fun as c hc => mem_takeWhile_imp hc
  have hsplit := (takeWhile_append_dropWhile (p := Text.isDecimal) (l := cs)).symm
  rw [numeral?] at h
  by_cases hempty : (cs.takeWhile Text.isDecimal).isEmpty = true
  · simp [hempty] at h
  · have hne : cs.takeWhile Text.isDecimal ≠ [] := by simpa using hempty
    simp only [hempty, Bool.false_eq_true, if_false] at h
    split at h
    · rename_i after hdrop
      split at h
      · obtain ⟨rfl, rfl⟩ := Prod.mk.inj (Option.some.inj h)
        exact ⟨⟨_, hne, htake cs, .inl rfl⟩, hsplit⟩
      · rename_i hfraction
        have hafter := (takeWhile_append_dropWhile (p := Text.isDecimal) (l := after)).symm
        obtain ⟨rfl, rfl⟩ := Prod.mk.inj (Option.some.inj h)
        refine ⟨⟨_, hne, htake cs, .inr ⟨_, by simpa using hfraction, htake after, rfl⟩⟩, ?_⟩
        rw [append_assoc, cons_append, ← hafter, ← hdrop]
        exact hsplit
    · obtain ⟨rfl, rfl⟩ := Prod.mk.inj (Option.some.inj h)
      exact ⟨⟨_, hne, htake cs, .inl rfl⟩, hsplit⟩

theorem Terminal.eq_append_of_lexeme?
    (h : t.lexeme? cs = some (l, rest)) : l ≠ [] ∧ cs = l ++ rest := by
  cases hspell : t.spelling? with
  | some text =>
    rw [Terminal.lexeme?_of_spelling hspell] at h
    obtain ⟨r, hr, hpair⟩ := Option.map_eq_some_iff.mp h
    obtain ⟨rfl, rfl⟩ := Prod.mk.inj hpair
    refine ⟨?_, eq_append_of_afterPrefix? hr⟩
    cases t <;> simp only [spelling?, Option.some.injEq, reduceCtorEq] at hspell <;>
      subst hspell <;> decide
  | none =>
    cases t <;> simp only [spelling?, reduceCtorEq] at hspell
    case cname =>
      cases cs with
      | nil => simp at h
      | cons c cs =>
        simp only [lexeme?] at h
        split at h
        · simp only [Option.some.injEq, Prod.mk.injEq] at h
          obtain ⟨rfl, rfl⟩ := h
          simp
        · simp at h
    case comment =>
      cases cs with
      | nil => simp at h
      | cons c cs =>
        simp only [lexeme?] at h
        split at h
        · simp only [Option.some.injEq, Prod.mk.injEq] at h
          obtain ⟨rfl, rfl⟩ := h
          simp
        · simp at h
    case number => exact (isNumeral_of_numeral? h).imp_left IsNumeral.ne_nil
    case boolean => exact eq_append_of_firstPrefix? (by decide) h
    case null => exact eq_append_of_firstPrefix? (by decide) h
    case assign => exact eq_append_of_firstPrefix? (by decide) h

/-- A token is what a text starts with, and it is not empty. -/
theorem eq_append_of_lexIn {t : Token} (h : lexIn context place cs = some (t, rest)) :
    t.text.toList ≠ [] ∧ cs = t.text.toList ++ rest := by
  obtain ⟨k, -, hk⟩ := exists_of_findSome?_eq_some h
  split at hk
  · obtain ⟨⟨l, r⟩, hlexeme, hpair⟩ := Option.map_eq_some_iff.mp hk
    obtain ⟨rfl, rfl⟩ := Prod.mk.inj hpair
    simpa using Terminal.eq_append_of_lexeme? hlexeme
  · simp at hk

/-- What is left after a token is shorter. -/
theorem length_lt_of_lexIn
    {t : Token} (h : lexIn context place cs = some (t, rest)) : rest.length < cs.length := by
  obtain ⟨htext, hsplit⟩ := eq_append_of_lexIn h
  have hpos := length_pos_iff.mpr htext
  rw [hsplit, length_append]
  omega

/-- The place of a token is the only thing that depends on where a text stands. -/
theorem lexIn_place (context : Terminal → Bool) (place place' : Place) (cs : List Char) :
    lexIn context place cs
      = (lexIn context place' cs).map fun q => (⟨q.1.kind, q.1.text, place⟩, q.2) := by
  unfold lexIn
  induction Terminal.all with
  | nil => rfl
  | cons t ts ih =>
    simp only [findSome?_cons]
    by_cases ht : context t = true
    · simp only [ht, if_true]
      cases t.lexeme? cs with
      | some q => rfl
      | none => exact ih
    · simp only [ht]
      exact ih

/-! ### Layout between tokens -/

theorem skipLayout_eq (place : Place) (cs : List Char) :
    skipLayout place cs = (place.advance (cs.takeWhile isLayout), cs.dropWhile isLayout) := by
  induction cs generalizing place with
  | nil => rfl
  | cons c cs ih =>
    rw [skipLayout]
    by_cases hc : isLayout c = true
    · rw [if_pos hc, ih, takeWhile_cons_of_pos hc, dropWhile_cons_of_pos hc]
      rfl
    · rw [if_neg hc, takeWhile_cons_of_neg hc, dropWhile_cons_of_neg hc]
      rfl

/-- Layout in front of a text is skipped. -/
theorem skipLayout_append (place : Place) (hgap : ∀ c ∈ gap, isLayout c = true) :
    skipLayout place (gap ++ cs) = skipLayout (place.advance gap) cs := by
  rw [skipLayout_eq, skipLayout_eq, takeWhile_append_of_pos hgap,
    dropWhile_append_of_pos hgap, Place.advance, foldl_append]
  rfl

/-- Only a text that is over still starts with layout where all layout was left out. -/
theorem eq_nil_of_breaksOff_dropWhile
    (h : breaksOff (cs.dropWhile isLayout) = true) : cs.dropWhile isLayout = [] := by
  cases hdrop : cs.dropWhile isLayout with
  | nil => rfl
  | cons c rest =>
    rw [hdrop] at h
    have hc := head_dropWhile_not isLayout (l := cs) (by simp [hdrop])
    simp only [hdrop, head_cons] at hc
    exact absurd h (by simp [breaksOff, hc])

end Ordo
