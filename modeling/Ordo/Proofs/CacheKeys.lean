import Ordo.Cache.Key
import Ordo.Proofs.Layout

namespace Ordo.Cache

/-!
# What a cache key says about a text

A key is made from the words of a text in small letters.  That is less than the grammar sees:
it knows fewer blanks than a key forgets, tells capitals from small letters, and ends a comment
at the end of its line.

* `isUncommented`, `isEvenlyLaid`, `isInSmall` — texts without comments, without blanks that
  the grammar does not know, and without capitals: a key forgets nothing but their layout;
* `relaid_words`, `programOfText_spaced` — such a text is its words, whatever the layout
  between them;
* `same_key_same_program` — when a key stands for one program.
-/

open List

open Text (wordsFrom isBlank lowerFrom)

/-- The words of a text with one space between them. -/
def spaced (s : String) : List Char := [' '].intercalate (Text.words s.toList)

/-- A character that lower case leaves alone. -/
def isSmall (c : Char) : Bool := Text.lower [c] = [c]

/-- Whether a text has no comments. -/
def isUncommented (s : String) : Bool := s.toList.all (· ≠ '►')

/-- Whether all blanks of a text are layout. -/
def isEvenlyLaid (s : String) : Bool := s.toList.all fun c => !isBlank c || isLayout c

/-- Whether a text has no capitals. -/
def isInSmall (s : String) : Bool := s.toList.all isSmall

/-! ### A text and its words -/

variable {c : Char} {piece cs : List Char} {s : String}

attribute [local simp] Text.wordsFrom

theorem isBlank_of_isLayout (h : isLayout c = true) : isBlank c = true := by
  rcases eq_of_isLayout h with rfl | rfl | rfl | rfl | rfl <;> decide

theorem not_isLayout_of_not_isBlank (h : isBlank c = false) : isLayout c = false := by
  by_contra hlayout
  have := isBlank_of_isLayout (Bool.not_eq_false _ ▸ hlayout)
  simp [h] at this

theorem wordsFrom_ne_nil (hpiece : piece ≠ []) (cs : List Char) : wordsFrom piece cs ≠ [] := by
  induction cs generalizing piece with
  | nil => simp [hpiece]
  | cons c cs ih =>
    rw [wordsFrom]
    split
    · simp [hpiece]
    · exact ih (cons_ne_nil c piece)

/-- A text whose blanks are layout is its words with other layout between them.  The words after
    an unfinished one are told from those after a blank, since only there layout may be lost. -/
theorem relaid_words (hblanks : ∀ c ∈ cs, isBlank c = true → isLayout c = true) :
    (∀ piece : List Char, piece ≠ [] → (∀ c ∈ piece, isLayout c = false) →
      Relaid (piece.reverse ++ cs) ([' '].intercalate (wordsFrom piece cs))) ∧
    ∃ gap rest, cs = gap ++ rest ∧ (∀ c ∈ gap, isLayout c = true) ∧
      Relaid rest ([' '].intercalate (wordsFrom [] cs)) ∧
      (wordsFrom [] cs = [] → rest = []) := by
  induction cs with
  | nil =>
    refine ⟨fun piece hne hpiece => ?_, [], [], rfl, by simp, ?_, fun _ => rfl⟩
    · have hwords : wordsFrom piece [] = [piece.reverse] := by simp [hne]
      rw [hwords, intercalate_singleton, append_nil]
      have hsame : Relaid (piece.reverse ++ []) (piece.reverse ++ []) :=
        Relaid.append_left (by simpa using hpiece) (Relaid.ending (by simp) (by simp))
      simpa using hsame
    · exact Relaid.ending (by simp) (by simp)
  | cons c cs ih =>
    obtain ⟨hpieces, gap, rest, hcs, hgap, hrest, hnone⟩ :=
      ih fun d hd => hblanks d (mem_cons_of_mem c hd)
    by_cases hc : isBlank c = true
    · have hlayout := hblanks c mem_cons_self hc
      have hgap' : ∀ d ∈ c :: gap, isLayout d = true := forall_mem_cons.mpr ⟨hlayout, hgap⟩
      refine ⟨fun piece hne hpiece => ?_, c :: gap, rest, by rw [hcs, cons_append], hgap',
        ?_, ?_⟩
      · have hwords : wordsFrom piece (c :: cs) = piece.reverse :: wordsFrom [] cs := by
          simp [hc, hne]
        have hreverse : ∀ d ∈ piece.reverse, isLayout d = false := by simpa using hpiece
        rw [hwords, hcs, ← cons_append]
        by_cases hlast : wordsFrom [] cs = []
        · -- the blanks after the last word are lost
          rw [← hcs, hlast, intercalate_singleton, hnone hlast, append_nil]
          have hend : Relaid (piece.reverse ++ c :: gap) (piece.reverse ++ []) :=
            Relaid.append_left hreverse (Relaid.ending hgap' (by simp))
          simpa using hend
        · rw [← hcs, intercalate_cons_of_ne_nil hlast, append_assoc]
          exact Relaid.append_left hreverse
            (Relaid.gap hgap' (by simp [isLayout]) (cons_ne_nil c gap) (by simp) hrest)
      · simpa [hc] using hrest
      · simpa [hc] using hnone
    · have hlayout := not_isLayout_of_not_isBlank (Bool.not_eq_true _ ▸ hc)
      have hgrow : ∀ piece, wordsFrom piece (c :: cs) = wordsFrom (c :: piece) cs := by
        intro piece
        simp [hc]
      refine ⟨fun piece hne hpiece => ?_, [], c :: cs, rfl, by simp, ?_, ?_⟩
      · have hnext := hpieces (c :: piece) (cons_ne_nil c piece)
          (forall_mem_cons.mpr ⟨hlayout, hpiece⟩)
        rw [hgrow]
        simpa using hnext
      · rw [hgrow]
        exact hpieces [c] (by simp) (by simp [hlayout])
      · intro hempty
        exact absurd (hgrow [] ▸ hempty) (wordsFrom_ne_nil (by simp) cs)

/-- **The words of a text decide which program it is**, if it has no comments and no blanks but
    layout. -/
theorem programOfText_spaced (huncommented : isUncommented s = true)
    (hlaid : isEvenlyLaid s = true) :
    (programOfText s).toOption = (programOfText (String.ofList (spaced s))).toOption := by
  simp only [isUncommented, all_eq_true, decide_eq_true_eq] at huncommented
  simp only [isEvenlyLaid, all_eq_true, Bool.or_eq_true, Bool.not_eq_true'] at hlaid
  have hblanks : ∀ c ∈ s.toList, isBlank c = true → isLayout c = true := by
    intro c hc hblank
    exact (hlaid c hc).resolve_left (by simp [hblank])
  obtain ⟨-, gap, rest, hsplit, hgap, hrest, -⟩ := relaid_words hblanks
  have hspaced : (String.ofList (spaced s)).toList = [] ++ spaced s := by simp
  refine programOfText_relaid hgap (by simp) hrest ?_ hsplit hspaced
  intro hmem
  apply huncommented '►' ?_ rfl
  rw [hsplit]
  exact mem_append_right gap hmem

/-! ### Small letters -/

theorem lowerFrom_cons_of_isSmall (h : isSmall c = true) (before cs : List Char) :
    lowerFrom before (c :: cs) = c :: lowerFrom (c :: before) cs := by
  have hc : lowerFrom [] [c] = [c] := of_decide_eq_true h
  simp only [lowerFrom, append_nil] at hc ⊢
  by_cases hdotted : c = '\u0130'
  · simp [hdotted] at hc
  · by_cases hsigma : c = 'Σ'
    · -- a capital sigma is made small whatever surrounds it
      subst hsigma
      exact absurd hc (by decide)
    · simp only [hdotted, hsigma, if_false] at hc ⊢
      rw [hc]
      rfl

theorem lower_of_isSmall (h : ∀ c ∈ cs, isSmall c = true) : Text.lower cs = cs := by
  unfold Text.lower
  generalize [] = before
  induction cs generalizing before with
  | nil => rfl
  | cons c cs ih =>
    obtain ⟨hc, hcs⟩ := forall_mem_cons.mp h
    rw [lowerFrom_cons_of_isSmall hc, ih hcs]

theorem mem_of_mem_wordsFrom {w : List Char}
    (hw : w ∈ wordsFrom piece cs) (hc : c ∈ w) : c ∈ piece ∨ c ∈ cs := by
  induction cs generalizing piece with
  | nil =>
    rw [wordsFrom] at hw
    split at hw
    · simp at hw
    · obtain rfl : w = piece.reverse := by simpa using hw
      exact Or.inl (mem_reverse.mp hc)
  | cons d cs ih =>
    rw [wordsFrom] at hw
    split at hw
    · split at hw
      · exact Or.inr (mem_cons_of_mem d ((ih hw).resolve_left (by simp)))
      · rcases mem_cons.mp hw with rfl | hw
        · exact Or.inl (mem_reverse.mp hc)
        · exact Or.inr (mem_cons_of_mem d ((ih hw).resolve_left (by simp)))
    · rcases ih hw with hmem | hmem
      · rcases mem_cons.mp hmem with rfl | hmem
        · exact Or.inr mem_cons_self
        · exact Or.inl hmem
      · exact Or.inr (mem_cons_of_mem d hmem)

theorem mem_of_mem_intercalate {ws : List (List Char)}
    (h : c ∈ [' '].intercalate ws) : c = ' ' ∨ ∃ w ∈ ws, c ∈ w := by
  induction ws with
  | nil => simp at h
  | cons w ws ih =>
    by_cases hws : ws = []
    · subst hws
      rw [intercalate_singleton] at h
      exact Or.inr ⟨w, mem_cons_self, h⟩
    · rw [intercalate_cons_of_ne_nil hws, mem_append, mem_append] at h
      rcases h with (h | h) | h
      · exact Or.inr ⟨w, mem_cons_self, h⟩
      · exact Or.inl (by simpa using h)
      · rcases ih h with h | ⟨v, hv, h⟩
        · exact Or.inl h
        · exact Or.inr ⟨v, mem_cons_of_mem w hv, h⟩

/-- The normal form of a text in small letters is its words. -/
theorem normalForm_of_isInSmall (hs : isInSmall s = true) :
    normalForm s = String.ofList (spaced s) := by
  rw [isInSmall, all_eq_true] at hs
  have hsmall : ∀ c ∈ spaced s, isSmall c = true := by
    intro c hc
    rcases mem_of_mem_intercalate hc with rfl | ⟨w, hw, hcw⟩
    · decide
    · exact hs c ((mem_of_mem_wordsFrom hw hcw).resolve_left (by simp))
  exact congrArg String.ofList (lower_of_isSmall hsmall)

/-! ### A blank that the grammar does not know -/

theorem lexeme?_verticalTab (t : Terminal) (cs : List Char) : t.lexeme? ('\x0b' :: cs) = none := by
  cases t <;> rfl

theorem lexIn_verticalTab (context : Terminal → Bool) (place : Place) (cs : List Char) :
    lexIn context place ('\x0b' :: cs) = none := by
  rw [lexIn, findSome?_eq_none_iff]
  intro t ht
  rw [lexeme?_verticalTab]
  split <;> rfl

/-- A text that starts with a vertical tab is no program. -/
theorem programOfText_verticalTab (s : String) : (programOfText ("\x0b" ++ s)).toOption = none := by
  have hlist : ("\x0b" ++ s).toList = '\x0b' :: s.toList := by simp
  have hskip : skipLayout Place.origin ('\x0b' :: s.toList)
      = (Place.origin, '\x0b' :: s.toList) := rfl
  have hderive : ∃ e, derive ('\x0b' :: s.toList) = .error e := by
    rw [derive, deriveFrom, hskip]
    simp only [lexIn_verticalTab]
    exact ⟨_, rfl⟩
  obtain ⟨e, he⟩ := hderive
  cases hprogram : programOfText ("\x0b" ++ s) with
  | error f => rfl
  | ok v =>
    obtain ⟨d, hd, -⟩ := programOfText_eq_ok_iff.mp hprogram
    rw [hlist, he] at hd
    simp at hd

/-- A key does not see a vertical tab in front of a text. -/
theorem normalForm_verticalTab (s : String) : normalForm ("\x0b" ++ s) = normalForm s := by
  have hwords : Text.words ("\x0b" ++ s).toList = Text.words s.toList := by
    have hlist : ("\x0b" ++ s).toList = '\x0b' :: s.toList := by simp
    rw [hlist]
    rfl
  rw [normalForm, normalForm, hwords]

/-! ### What a key stands for -/

/-- **A key stands for one program only among texts that differ in layout.**  Texts without
    comments and with no blanks but layout are the same program if they have the same words, and
    so they are if they are in small letters and have the same key.  Beyond such texts a key says
    nothing: it stands for one program, or none, exactly if no text with that key is a program. -/
theorem same_key_same_program (s t : String) :
    (isUncommented s = true → isUncommented t = true → isEvenlyLaid s = true →
      isEvenlyLaid t = true →
        (Text.words s.toList = Text.words t.toList → normalForm s = normalForm t ∧
          (programOfText s).toOption = (programOfText t).toOption) ∧
        (isInSmall s = true → isInSmall t = true → normalForm s = normalForm t →
          (programOfText s).toOption = (programOfText t).toOption)) ∧
    ((∀ u, normalForm u = normalForm s → (programOfText u).toOption = (programOfText s).toOption) ↔
      ∀ u, normalForm u = normalForm s → (programOfText u).toOption = none) := by
  refine ⟨fun hs ht hs' ht' => ⟨fun hwords => ?_, fun hsmall hsmall' hkey => ?_⟩, ?_⟩
  · have hspaced : spaced s = spaced t := by rw [spaced, spaced, hwords]
    refine ⟨congrArg (fun cs => String.ofList (Text.lower cs)) hspaced, ?_⟩
    rw [programOfText_spaced hs hs', programOfText_spaced ht ht', hspaced]
  · rw [normalForm_of_isInSmall hsmall, normalForm_of_isInSmall hsmall'] at hkey
    rw [programOfText_spaced hs hs', programOfText_spaced ht ht', hkey]
  · constructor
    · intro hsame u hu
      rw [hsame u hu, ← hsame _ (normalForm_verticalTab s), programOfText_verticalTab]
    · intro hnone u hu
      rw [hnone u hu, hnone s rfl]

theorem same_key_same_program_indented :
    isUncommented "begin\n\tx := 1\nend" = true ∧ isUncommented "begin x := 1 end " = true ∧
    isEvenlyLaid "begin\n\tx := 1\nend" = true ∧ isEvenlyLaid "begin x := 1 end " = true ∧
    (programOfText "begin\n\tx := 1\nend").toOption
      = (programOfText "begin x := 1 end ").toOption ∧
    (programOfText "begin x := 1 end ").isOk = true :=
  ⟨by decide, by decide, by decide, by decide,
    ((same_key_same_program _ _).1 (by decide) (by decide) (by decide) (by decide)).2
      (by decide) (by decide) (by decide), by decide +kernel⟩

/-- A blank that is no layout, a capital and the end of a comment are lost in a key, each of
    which decides whether a text is a program. -/
theorem same_key_other_program : (normalForm "begin end" = normalForm "\x0bbegin end" ∧
      (programOfText "begin end").isOk = true ∧ (programOfText "\x0bbegin end").isOk = false) ∧
    (normalForm "begin end" = normalForm "BEGIN END" ∧
      (programOfText "begin end").isOk = true ∧ (programOfText "BEGIN END").isOk = false) ∧
    (normalForm "begin ► a\nend" = normalForm "begin ► a end" ∧
      (programOfText "begin ► a\nend").isOk = true ∧
      (programOfText "begin ► a end").isOk = false) := by
  decide +kernel

end Ordo.Cache
