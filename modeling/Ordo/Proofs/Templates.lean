import Mathlib.Data.List.Forall2
import Mathlib.Data.List.TakeWhile
import Ordo.Text.Template

namespace Ordo.Text

/-!
# How templates fit a text

A template tries the runs of its first piece in turn and goes back to the next one where the rest
of it does not fit.  What is fitted can be said without that order, and where the next piece
refuses what the piece before it takes, there is nothing to go back to.

* `Piece.Takes`, `Piece.mem_lengths_iff` — the runs of a piece, and that these are the ones tried;
* `Template.Fits`, `Template.fits_of_fit` — the texts that a template describes, and that it fits
  no others;
* `Template.Fits.takes` — the kept runs, and the pieces that took them;
* `Template.Spends` — how often a character stands in the texts of a template;
* `Template.fit_greedy`, `Template.fit_shortest` — the first fit, for pieces of either kind;
* `Template.fit_skip` — characters that are passed over before something else;
* `Template.search_eq_none_iff`, `Template.search_of_fit` — searching in a text.
-/

open List

namespace Piece

variable {p : Piece} {cs run rest : List Char} {k : Nat}

/-! ### Runs of a piece -/

/-- The runs that a piece describes. -/
structure Takes (p : Piece) (run : List Char) : Prop where
  accepted : ∀ c ∈ run, p.accepts c = true
  enough : p.least ≤ run.length
  bounded : ∀ m, p.most = some m → run.length ≤ m

/-- What is kept of a fit, with the run of one more piece in front. -/
def record (p : Piece) (run : List Char) (runs : List (List Char)) : List (List Char) :=
  if p.kept then run :: runs else runs

theorem record_append (run : List Char) (runs runs' : List (List Char)) :
    p.record run (runs ++ runs') = p.record run runs ++ runs' := by
  unfold record
  split <;> rfl

theorem le_length_takeWhile_iff {accepts : Char → Bool} : k ≤ (cs.takeWhile accepts).length ↔
      k ≤ cs.length ∧ ∀ c ∈ cs.take k, accepts c = true := by
  induction cs generalizing k with
  | nil => simp
  | cons c cs ih =>
    cases k with
    | zero => simp
    | succ k =>
      by_cases hc : accepts c = true
      · simp [hc, ih]
      · simp [hc]

theorem le_limit_iff : k ≤ p.limit cs ↔
    k ≤ cs.length ∧ (∀ c ∈ cs.take k, p.accepts c = true) ∧ ∀ m, p.most = some m → k ≤ m := by
  unfold limit
  cases hmost : p.most with
  | none => simp [le_length_takeWhile_iff]
  | some m =>
    simp only [Nat.le_min, le_length_takeWhile_iff, Option.some.injEq, forall_eq']
    rw [and_comm, and_assoc]

theorem mem_lengths_iff_le : k ∈ p.lengths cs ↔ p.least ≤ k ∧ k ≤ p.limit cs := by
  have hmem : k ∈ (List.range (p.limit cs + 1)).drop p.least ↔ p.least ≤ k ∧ k ≤ p.limit cs := by
    rw [range_eq_range', drop_range', mem_range'_1]
    omega
  unfold lengths
  split
  · rw [mem_reverse, hmem]
  · exact hmem

/-- **The runs that are tried** are those that the piece describes. -/
theorem mem_lengths_iff : k ∈ p.lengths cs ↔ k ≤ cs.length ∧ p.Takes (cs.take k) := by
  rw [mem_lengths_iff_le, le_limit_iff]
  constructor
  · rintro ⟨hleast, hk, haccepts, hmost⟩
    have hlength : (cs.take k).length = k := length_take_of_le hk
    exact ⟨hk, haccepts, hlength.symm ▸ hleast, hlength.symm ▸ hmost⟩
  · rintro ⟨hk, haccepts, hleast, hmost⟩
    rw [length_take_of_le hk] at hleast hmost
    exact ⟨hleast, hk, haccepts, hmost⟩

/-- The longest run of a piece ends where the piece refuses the next character. -/
theorem limit_append (hmost : p.most = none) (hrun : ∀ c ∈ run, p.accepts c = true)
    (hrest : ∀ c ∈ rest.head?, p.accepts c = false) : p.limit (run ++ rest) = run.length := by
  have hstop : rest.takeWhile p.accepts = [] := by
    cases rest with
    | nil => rfl
    | cons c cs => simp [hrest c rfl]
  simp [limit, hmost, takeWhile_append_of_pos hrun, hstop]

end Piece

namespace Template

open Piece

variable {p q : Piece} {ps t u : Template} {cs run rest tail : List Char}
  {runs : List (List Char)}

/-! ### What a template describes -/

/-- The texts that start as a template describes, with the kept runs and the rest. -/
inductive Fits : Template → List Char → List (List Char) → List Char → Prop
  | nil (rest : List Char) : Fits [] rest [] rest
  | cons {p : Piece} {ps : Template} {run cs tail : List Char} {runs : List (List Char)}
      (hrun : p.Takes run) (h : Fits ps cs runs tail) :
      Fits (p :: ps) (run ++ cs) (p.record run runs) tail

theorem fit_cons (p : Piece) (ps : Template) (cs : List Char) :
    fit (p :: ps) cs = (p.lengths cs).findSome? fun k =>
      (fit ps (cs.drop k)).map fun q => (p.record (cs.take k) q.1, q.2) := by
  rw [fit]
  congr 1
  funext k
  cases fit ps (cs.drop k) with
  | none => rfl
  | some q =>
    simp only [Option.map_some, record]
    split <;> rfl

/-- **A template fits only what it describes.** -/
theorem fits_of_fit (h : fit t cs = some (runs, tail)) : Fits t cs runs tail := by
  induction t generalizing cs runs with
  | nil =>
    obtain ⟨rfl, rfl⟩ : [] = runs ∧ cs = tail := by simpa [fit] using h
    exact .nil cs
  | cons p ps ih =>
    rw [fit_cons] at h
    obtain ⟨k, hk, hfit⟩ := exists_of_findSome?_eq_some h
    obtain ⟨⟨runs', tail'⟩, hrest, hpair⟩ := Option.map_eq_some_iff.mp hfit
    obtain ⟨rfl, rfl⟩ := Prod.mk.inj hpair
    have hfits := Fits.cons (mem_lengths_iff.mp hk).2 (ih hrest)
    rwa [take_append_drop] at hfits

/-- A text of two templates is a text of the first and then one of the second. -/
theorem Fits.of_append (h : Fits (t ++ u) cs runs tail) :
    ∃ mid runs₁ runs₂, Fits t cs runs₁ mid ∧ Fits u mid runs₂ tail ∧ runs = runs₁ ++ runs₂ := by
  induction t generalizing cs runs with
  | nil => exact ⟨cs, [], runs, .nil cs, h, rfl⟩
  | cons p ps ih =>
    obtain _ | ⟨hrun, hrest⟩ := h
    obtain ⟨mid, runs₁, runs₂, ht, hu, rfl⟩ := ih hrest
    exact ⟨mid, _, runs₂, .cons hrun ht, hu, record_append _ _ _⟩

/-- The kept runs are taken by the kept pieces, one each. -/
theorem Fits.takes (h : Fits t cs runs tail) :
    List.Forall₂ Piece.Takes (t.filter Piece.kept) runs := by
  induction h with
  | nil rest => exact .nil
  | @cons p ps run cs tail runs hrun h ih =>
    rw [filter_cons, record]
    split
    · exact .cons hrun ih
    · exact ih

variable {c : Char} {accepts : Char → Bool}

theorem takes_char_iff : (Piece.char c).Takes run ↔ run = [c] := by
  constructor
  · rintro ⟨haccepted, henough, hbounded⟩
    have hlength : run.length = 1 := Nat.le_antisymm (hbounded 1 rfl) henough
    obtain ⟨d, rfl⟩ := length_eq_one_iff.mp hlength
    simpa [Piece.char] using haccepted
  · rintro rfl
    exact ⟨by simp [Piece.char], Nat.le_refl 1, by simp [Piece.char]⟩

theorem Fits.of_char (h : Fits (.char c :: ps) cs runs tail) :
    ∃ rest, cs = c :: rest ∧ Fits ps rest runs tail := by
  obtain _ | ⟨hrun, hrest⟩ := h
  obtain rfl := takes_char_iff.mp hrun
  exact ⟨_, rfl, hrest⟩

/-- A text is described by itself only. -/
theorem Fits.of_text {s : String} (h : Fits (text s ++ ps) cs runs tail) :
    ∃ rest, cs = s.toList ++ rest ∧ Fits ps rest runs tail := by
  unfold text at h
  generalize s.toList = given at h
  induction given generalizing cs with
  | nil => exact ⟨cs, rfl, h⟩
  | cons c given ih =>
    obtain ⟨rest, rfl, hrest⟩ := h.of_char
    obtain ⟨rest', rfl, hps⟩ := ih hrest
    exact ⟨rest', rfl, hps⟩

/-! ### Characters that are used up -/

/-- A template whose texts have a character at least so many times. -/
def Spends (t : Template) (c : Char) (n : Nat) : Prop :=
  ∀ cs runs tail, Fits t cs runs tail → tail.count c + n ≤ cs.count c

theorem spends_zero (t : Template) (c : Char) : t.Spends c 0 := by
  intro cs runs tail h
  induction h with
  | nil rest => exact Nat.le_refl _
  | cons hrun h ih =>
    rw [count_append]
    omega

theorem spends_char (c : Char) : Spends [.char c] c 1 := by
  intro cs runs tail h
  obtain ⟨rest, rfl, hrest⟩ := h.of_char
  cases hrest
  rw [count_cons_self]

theorem spends_text (s : String) (c : Char) : (text s).Spends c (s.toList.count c) := by
  intro cs runs tail h
  rw [← append_nil (text s)] at h
  obtain ⟨rest, rfl, hrest⟩ := h.of_text
  cases hrest
  rw [count_append]
  omega

theorem Spends.append {m n : Nat} (ht : t.Spends c m) (hu : u.Spends c n) :
    (t ++ u).Spends c (m + n) := by
  intro cs runs tail h
  obtain ⟨mid, runs₁, runs₂, hfirst, hsecond, -⟩ := h.of_append
  have hbefore := ht _ _ _ hfirst
  have hafter := hu _ _ _ hsecond
  omega

/-- A template does not fit a text that has too few of a character. -/
theorem Spends.fit_eq_none {n : Nat} (h : t.Spends c n) (hcs : cs.count c < n) :
    fit t cs = none := by
  cases hfit : fit t cs with
  | none => rfl
  | some q =>
    have hcount := h _ _ _ (fits_of_fit hfit)
    omega

/-! ### The first fit -/

/-- The first run that the rest of the template fits after is taken. -/
theorem fit_of_lengths {before after : List Nat} {k : Nat}
    (hlengths : p.lengths cs = before ++ k :: after)
    (hbefore : ∀ j ∈ before, fit ps (cs.drop j) = none)
    (hk : fit ps (cs.drop k) = some (runs, tail)) :
    fit (p :: ps) cs = some (p.record (cs.take k) runs, tail) := by
  have hnone : (before.findSome? fun j =>
      (fit ps (cs.drop j)).map fun q => (p.record (cs.take j) q.1, q.2)) = none := by
    rw [findSome?_eq_none_iff]
    intro j hj
    rw [hbefore j hj]
    rfl
  rw [fit_cons, hlengths, findSome?_append, hnone, Option.none_or, findSome?_cons, hk]
  rfl

theorem fit_eq_none (h : ∀ k ∈ p.lengths cs, fit ps (cs.drop k) = none) :
    fit (p :: ps) cs = none := by
  rw [fit_cons, findSome?_eq_none_iff]
  intro k hk
  rw [h k hk]
  rfl

/-- A greedy piece takes its longest run if the rest of the template fits after it. -/
theorem fit_greedy (hgreedy : p.greedy = true) (hleast : p.least ≤ run.length)
    (hlimit : p.limit (run ++ rest) = run.length) (h : fit ps rest = some (runs, tail)) :
    fit (p :: ps) (run ++ rest) = some (p.record run runs, tail) := by
  have hlengths : p.lengths (run ++ rest) = [] ++ run.length
      :: (range' p.least (run.length - p.least)).reverse := by
    have hrange : (List.range (run.length + 1)).drop p.least
        = range' p.least (run.length - p.least) ++ [run.length] := by
      rw [range_eq_range', drop_range', Nat.mul_one, Nat.zero_add,
        Nat.succ_sub hleast, range'_1_concat]
      congr 2
      omega
    simp [lengths, hgreedy, hlimit, hrange]
  have hfit : fit (p :: ps) (run ++ rest) = some (p.record ((run ++ rest).take run.length) runs,
      tail) := by
    apply fit_of_lengths hlengths
    · simp
    · rwa [drop_left]
  rwa [take_left] at hfit

/-- A piece that is to be short takes the first run that the rest of the template fits after. -/
theorem fit_shortest (hgreedy : p.greedy = false) (htakes : p.Takes run)
    (hbefore : ∀ k, p.least ≤ k → k < run.length → fit ps (run.drop k ++ rest) = none)
    (h : fit ps rest = some (runs, tail)) :
    fit (p :: ps) (run ++ rest) = some (p.record run runs, tail) := by
  have hle : run.length ≤ p.limit (run ++ rest) := by
    rw [le_limit_iff, take_left]
    exact ⟨by simp, htakes.accepted, htakes.bounded⟩
  have hleast := htakes.enough
  have hlengths : p.lengths (run ++ rest) = range' p.least (run.length - p.least)
      ++ run.length :: range' (run.length + 1) (p.limit (run ++ rest) - run.length) := by
    have hsplit : p.limit (run ++ rest) + 1 - p.least
        = (run.length - p.least) + (1 + (p.limit (run ++ rest) - run.length)) := by omega
    have hstart : p.least + (run.length - p.least) = run.length := by omega
    simp only [lengths, hgreedy, Bool.false_eq_true, if_false]
    rw [range_eq_range', drop_range', Nat.mul_one, Nat.zero_add, hsplit,
      ← range'_append_1, ← range'_append_1, hstart]
    rfl
  have hfit : fit (p :: ps) (run ++ rest) = some (p.record ((run ++ rest).take run.length) runs,
      tail) := by
    apply fit_of_lengths hlengths
    · intro k hk
      rw [mem_range'_1] at hk
      rw [drop_append_of_le_length (by omega)]
      exact hbefore k hk.1 (by omega)
    · rwa [drop_left]
  rwa [take_left] at hfit

/-! ### Single pieces -/

/-- A piece that needs a character and refuses the next one does not fit. -/
theorem fit_of_refused (hleast : 1 ≤ p.least) (h : ∀ c ∈ cs.head?, p.accepts c = false) :
    fit (p :: ps) cs = none := by
  refine fit_eq_none fun k hk => ?_
  obtain ⟨hlength, haccepted, henough, -⟩ := mem_lengths_iff.mp hk
  rw [length_take_of_le hlength] at henough
  cases cs with
  | nil =>
    rw [length_nil] at hlength
    omega
  | cons c cs =>
    have hmem : c ∈ (c :: cs).take k := by
      rw [take_cons (by omega)]
      exact mem_cons_self
    have hc := haccepted c hmem
    rw [h c rfl] at hc
    exact absurd hc (by simp)

theorem fit_char (c : Char) (ps : Template) (rest : List Char) :
    fit (.char c :: ps) (c :: rest) = fit ps rest := by
  have hlimit : (Piece.char c).limit ([c] ++ rest) = 1 := by simp [Piece.char, limit]
  cases h : fit ps rest with
  | some q => exact @fit_greedy _ _ [c] _ _ _ rfl (Nat.le_refl 1) hlimit h
  | none =>
    refine fit_eq_none fun k hk => ?_
    obtain ⟨hleast, hmost⟩ := mem_lengths_iff_le.mp hk
    have hk : k = 1 := Nat.le_antisymm (hmost.trans (Nat.le_of_eq hlimit)) hleast
    rw [hk]
    exact h

theorem fit_char_of_ne {d : Char} (h : d ≠ c) (rest : List Char) :
    fit (.char c :: ps) (d :: rest) = none := by
  refine fit_of_refused (Nat.le_refl 1) fun e he => ?_
  obtain rfl : d = e := by simpa using he
  simpa [Piece.char] using h

theorem fit_text (s : String) (ps : Template) (rest : List Char) :
    fit (text s ++ ps) (s.toList ++ rest) = fit ps rest := by
  unfold text
  induction s.toList with
  | nil => rfl
  | cons c given ih =>
    rw [map_cons, cons_append, cons_append, fit_char]
    exact ih

/-- **Characters are passed over** up to the first one of another class, if the next piece needs
    one and refuses those: no shorter run would do. -/
theorem fit_skip (hleast : 1 ≤ q.least) (hrefused : ∀ c, accepts c = true → q.accepts c = false)
    (hrun : ∀ c ∈ run, accepts c = true) (hrest : ∀ c ∈ rest.head?, accepts c = false) :
    fit (.skip accepts :: q :: ps) (run ++ rest) = fit (q :: ps) rest := by
  have hlimit : (Piece.skip accepts).limit (run ++ rest) = run.length :=
    limit_append rfl hrun hrest
  cases h : fit (q :: ps) rest with
  | some r => exact fit_greedy rfl (Nat.zero_le _) hlimit h
  | none =>
    refine fit_eq_none fun k hk => ?_
    have hk : k ≤ run.length := by
      have hbound := (mem_lengths_iff_le.mp hk).2
      omega
    rw [drop_append_of_le_length hk]
    cases hdrop : run.drop k with
    | nil => exact h
    | cons c cs =>
      refine fit_of_refused hleast fun d hd => hrefused d (hrun d ?_)
      have hmem : d ∈ run.drop k := by
        rw [hdrop]
        exact mem_of_mem_head? (by simpa using hd)
      exact mem_of_mem_drop hmem

/-- As many characters of a class as there are. -/
theorem fit_longest (hne : run ≠ []) (hrun : ∀ c ∈ run, accepts c = true)
    (hrest : ∀ c ∈ rest.head?, accepts c = false) (h : fit ps rest = some (runs, tail)) :
    fit (.longest accepts :: ps) (run ++ rest) = some (run :: runs, tail) :=
  fit_greedy rfl (length_pos_iff.mpr hne) (limit_append rfl hrun hrest) h

/-! ### Searching -/

theorem search_of_fit (h : fit t cs = some (runs, tail)) : search t cs = some runs := by
  cases cs with
  | nil => simp [search, h]
  | cons c cs => simp [search, h]

/-- What is found in a text is fitted somewhere in it. -/
theorem exists_fit_of_search (h : search t cs = some runs) :
    ∃ end' tail, end' <:+ cs ∧ fit t end' = some (runs, tail) := by
  induction cs with
  | nil =>
    obtain ⟨⟨runs, tail⟩, hfit, rfl⟩ := Option.map_eq_some_iff.mp h
    exact ⟨[], tail, suffix_rfl, hfit⟩
  | cons c cs ih =>
    rw [search] at h
    cases hfit : fit t (c :: cs) with
    | some q =>
      obtain rfl : q.1 = runs := by simpa [hfit] using h
      exact ⟨c :: cs, q.2, suffix_rfl, hfit⟩
    | none =>
      rw [hfit] at h
      obtain ⟨end', tail, hsuffix, hend⟩ := ih h
      exact ⟨end', tail, hsuffix.trans (suffix_cons c cs), hend⟩

/-- The runs that are found are taken by the kept pieces, one each. -/
theorem takes_of_search (h : search t cs = some runs) :
    List.Forall₂ Piece.Takes (t.filter Piece.kept) runs := by
  obtain ⟨end', tail, -, hfit⟩ := exists_fit_of_search h
  exact (fits_of_fit hfit).takes

/-- Nothing is found in a text if the template fits nowhere in it. -/
theorem search_eq_none_iff : search t cs = none ↔ ∀ end', end' <:+ cs → fit t end' = none := by
  induction cs with
  | nil => simp [search]
  | cons c cs ih =>
    rw [search]
    cases h : fit t (c :: cs) with
    | some q =>
      simp only [reduceCtorEq, false_iff, not_forall]
      exact ⟨c :: cs, suffix_rfl, by simp [h]⟩
    | none =>
      simp only [ih, suffix_cons_iff, forall_eq_or_imp, h, true_and]

end Template

end Ordo.Text
