import Ordo.Proofs.Completeness
import Ordo.Proofs.Lexing

namespace Ordo

open Automaton

/-!
# Lexemes with layout between them

A text that puts layout between its tokens is cut exactly there.

* `Lexeme`, `Lexeme.IsFree` — tokens without their place, and those that can be told from their
  text alone;
* `Spread`, `SpreadOut` — lexemes with layout between them;
* `derive_spreadOut` — such a text is derived as its lexemes are read.
-/

open List

/-! ### Lexemes -/

theorem code_of_isNameStart {c : Char} (h : isNameStart c = true) :
    65 ≤ c.toNat ∧ c.toNat ≤ 122 := by
  simp only [isNameStart, Bool.or_eq_true, decide_eq_true_eq] at h
  rcases h with h | rfl
  · have halpha : (decide ('A'.val ≤ c.val ∧ c.val ≤ 'Z'.val) ||
        (decide ('a'.val ≤ c.val) && decide (c.val ≤ 'z'.val))) = true := h
    simp only [Bool.or_eq_true, Bool.and_eq_true, decide_eq_true_eq] at halpha
    have hletter : (65 ≤ c.toNat ∧ c.toNat ≤ 90) ∨ (97 ≤ c.toNat ∧ c.toNat ≤ 122) := halpha
    omega
  · decide

/-- Digits are no letters, and start no comment. -/
theorem not_isNameStart_of_isDecimal {c : Char} (h : Text.isDecimal c = true) :
    isNameStart c = false ∧ c ≠ '►' := by
  refine ⟨?_, by rintro rfl; exact absurd h (by decide)⟩
  have hcode : c.toNat < 65 ∨ 123 ≤ c.toNat := by
    rw [Text.isDecimal, Text.digitValue?] at h
    by_cases hsmall : c.toNat < 1632
    · rw [if_pos hsmall] at h
      by_cases hdigit : '0' ≤ c ∧ c ≤ '9'
      · have : c.toNat ≤ 57 := hdigit.2
        omega
      · simp [hdigit] at h
    · omega
  cases hc : isNameStart c with
  | false => rfl
  | true =>
    have hletter := code_of_isNameStart hc
    omega

/-- A token without its place. -/
structure Lexeme where
  kind : Terminal
  text : String
  deriving DecidableEq, Repr

/-- A token without its place. -/
def Token.lexeme (t : Token) : Lexeme := ⟨t.kind, t.text⟩

/-- An identifier that is no reserved word. -/
def isName (s : String) : Bool :=
  match s.toList with
  | [] => false
  | c :: cs => isNameStart c && cs.all isNameChar && (Terminal.reserved.lookup s.toList).isNone

/-- A lexeme that can be told from its text alone, wherever its kind is possible. -/
inductive Lexeme.IsFree : Lexeme → Prop
  /-- Reserved words, operators and punctuation. -/
  | fixed {t : Terminal} {text : String} (h : t.spelling? = some text) : IsFree ⟨t, text⟩
  | name {text : String} (h : isName text = true) : IsFree ⟨.cname, text⟩
  | assign {text : String} (h : text = ":=" ∨ text = "🡨") : IsFree ⟨.assign, text⟩
  | numeral {text : String} (hne : text.toList ≠ []) (h : text.toList.all Text.isDecimal = true) :
      IsFree ⟨.number, text⟩

/-- The terminals that a text starts with, whatever the context. -/
def fitting (cs : List Char) : List Terminal :=
  Terminal.all.filter fun t => (t.lexeme? cs).isSome

/-- The lexer only looks at the terminals that fit. -/
theorem lexIn_eq_fitting (context : Terminal → Bool) (place : Place) (cs : List Char) :
    lexIn context place cs = (fitting cs).findSome? fun t => if context t then
        (t.lexeme? cs).map fun (lexeme, rest) =>
          (⟨wordKind context t lexeme, String.ofList lexeme, place⟩, rest) else none := by
  unfold lexIn fitting
  induction Terminal.all with
  | nil => rfl
  | cons t ts ih =>
    cases ht : t.lexeme? cs with
    | none =>
      rw [filter_cons_of_neg (by simp [ht]), findSome?_cons, ht, ← ih]
      simp
    | some q =>
      rw [filter_cons_of_pos (by simp [ht]), findSome?_cons, findSome?_cons, ih]

/-- What fits the text of a fixed terminal: first the terminal itself, or, if it is a reserved
    word, a name and then the terminal. -/
def Terminal.isPlain (t : Terminal) : Bool :=
  match t.spelling? with
  | none => true
  | some text =>
      t.lexeme? text.toList == some (text.toList, []) &&
        ((fitting text.toList).head? == some t ||
          (fitting text.toList).take 2 == [.cname, t] &&
            Terminal.cname.lexeme? text.toList == some (text.toList, []) &&
            Terminal.reserved.lookup text.toList == some t)

theorem Terminal.all_isPlain : Terminal.all.all Terminal.isPlain = true := by
  decide +kernel

theorem Terminal.isPlain_eq_true (t : Terminal) : t.isPlain = true :=
  all_eq_true.mp Terminal.all_isPlain t (by cases t <;> decide)

variable {context : Terminal → Bool} {text : String}

/-- A fixed terminal is read from its text. -/
theorem lexIn_fixed {t : Terminal} (h : t.spelling? = some text) (hcontext : context t = true)
    (place : Place) : lexIn context place text.toList = some (⟨t, text, place⟩, []) := by
  have hplain := t.isPlain_eq_true
  simp only [Terminal.isPlain, h, Bool.and_eq_true, Bool.or_eq_true, beq_iff_eq] at hplain
  have hkind : wordKind context t text.toList = t := by
    have hne : t ≠ .cname := by rintro rfl; simp [Terminal.spelling?] at h
    rw [wordKind, if_neg hne]
  obtain ⟨hself, hfit | ⟨⟨hfit, hname⟩, hword⟩⟩ := hplain
  · obtain ⟨ts, hts⟩ : ∃ ts, fitting text.toList = t :: ts := by
      cases hf : fitting text.toList with
      | nil => simp [hf] at hfit
      | cons u us => exact ⟨us, by simpa [hf] using hfit⟩
    rw [lexIn_eq_fitting, hts, findSome?_cons]
    simp [hcontext, hself, hkind]
  · -- a reserved word: it is read as a name first, where names are possible
    obtain ⟨ts, hts⟩ : ∃ ts, fitting text.toList = .cname :: t :: ts := by
      cases hf : fitting text.toList with
      | nil => simp [hf] at hfit
      | cons u us =>
        cases us with
        | nil => simp [hf] at hfit
        | cons v us => exact ⟨us, by simpa [hf] using hfit⟩
    have hreserved : wordKind context .cname text.toList = t := by
      simp [wordKind, hword, hcontext]
    rw [lexIn_eq_fitting, hts, findSome?_cons, findSome?_cons]
    cases context .cname <;> simp [hcontext, hname, hself, hkind, hreserved]

/-- A name is read from its text. -/
theorem lexIn_name (h : isName text = true) (hcontext : context .cname = true) (place : Place) :
    lexIn context place text.toList = some (⟨.cname, text, place⟩, []) := by
  unfold isName at h
  split at h
  · exact absurd h (by simp)
  · rename_i c cs htext
    simp only [Bool.and_eq_true, Option.isNone_iff_eq_none, all_eq_true] at h
    obtain ⟨⟨hstart, hchars⟩, hword⟩ := h
    have hlexeme : Terminal.cname.lexeme? text.toList = some (text.toList, []) := by
      have htake : cs.takeWhile isNameChar = cs := takeWhile_eq_self_iff.mpr hchars
      have hdrop : cs.dropWhile isNameChar = [] := dropWhile_eq_nil_iff.mpr hchars
      simp [htext, Terminal.lexeme?, hstart, htake, hdrop]
    have hkind : wordKind context .cname text.toList = .cname := by simp [wordKind, hword]
    unfold lexIn
    rw [Terminal.all, findSome?_cons]
    simp [hcontext, hlexeme, hkind]

/-- A numeral without a point is read from its text. -/
theorem lexIn_numeral (hne : text.toList ≠ []) (h : text.toList.all Text.isDecimal = true)
    (hcontext : context .number = true) (place : Place) :
    lexIn context place text.toList = some (⟨.number, text, place⟩, []) := by
  rw [all_eq_true] at h
  have htake : text.toList.takeWhile Text.isDecimal = text.toList :=
    takeWhile_eq_self_iff.mpr h
  have hdrop : text.toList.dropWhile Text.isDecimal = [] := dropWhile_eq_nil_iff.mpr h
  have hlexeme : Terminal.number.lexeme? text.toList = some (text.toList, []) := by
    simp [Terminal.lexeme?, numeral?, htake, hdrop, hne]
  have hkind : wordKind context .number text.toList = .number := rfl
  obtain ⟨hname, hcomment⟩ : Terminal.cname.lexeme? text.toList = none ∧
      Terminal.comment.lexeme? text.toList = none := by
    cases htext : text.toList with
    | nil => exact absurd htext hne
    | cons c cs =>
      obtain ⟨hstart, hmark⟩ := not_isNameStart_of_isDecimal (h c (by simp [htext]))
      exact ⟨by simp [Terminal.lexeme?, hstart], by simp [Terminal.lexeme?, hmark]⟩
  unfold lexIn
  rw [Terminal.all, findSome?_cons, findSome?_cons, findSome?_cons]
  simp [hname, hcomment, hcontext, hlexeme, hkind]

variable {l : Lexeme} {ls : List Lexeme}

/-- A free lexeme is read from its text. -/
theorem Lexeme.IsFree.lexIn (hl : l.IsFree) (hcontext : context l.kind = true) (place : Place) :
    Ordo.lexIn context place l.text.toList = some (⟨l.kind, l.text, place⟩, []) := by
  cases hl with
  | fixed h => exact lexIn_fixed h hcontext place
  | name h => exact lexIn_name h hcontext place
  | numeral hne h => exact lexIn_numeral hne h hcontext place
  | @assign text h =>
    have hcontext : context .assign = true := hcontext
    have hfit : fitting text.toList = [.assign] ∧
        Terminal.assign.lexeme? text.toList = some (text.toList, []) := by
      rcases h with rfl | rfl <;> decide +kernel
    have hkind : wordKind context .assign text.toList = .assign := rfl
    rw [lexIn_eq_fitting, hfit.1, findSome?_cons]
    simp [hcontext, hfit.2, hkind]

/-- A free lexeme starts with a character that is no layout and starts no comment. -/
theorem Lexeme.IsFree.text_eq_cons (hl : l.IsFree) :
    ∃ c cs, l.text.toList = c :: cs ∧ isLayout c = false ∧ c ≠ '►' := by
  cases hl with
  | @fixed t text h =>
    have hstart : (match text.toList with
        | [] => false
        | c :: _ => !isLayout c && c != '►') = true := by
      cases t <;> simp only [Terminal.spelling?, Option.some.injEq, reduceCtorEq] at h <;>
        subst h <;> decide
    cases htext : text.toList with
    | nil => simp [htext] at hstart
    | cons c cs => exact ⟨c, cs, rfl, by simpa [htext] using hstart⟩
  | @name text h =>
    unfold isName at h
    split at h
    · exact absurd h (by simp)
    · rename_i c cs htext
      simp only [Bool.and_eq_true] at h
      refine ⟨c, cs, htext, ?_, by rintro rfl; exact absurd h.1.1 (by decide)⟩
      cases hc : isLayout c with
      | false => rfl
      | true =>
        rcases eq_of_isLayout hc with rfl | rfl | rfl | rfl | rfl <;>
          exact absurd h.1.1 (by decide)
  | @numeral text hne h =>
    cases htext : text.toList with
    | nil => exact absurd htext hne
    | cons c cs =>
      have hc : Text.isDecimal c = true := all_eq_true.mp h c (by simp [htext])
      refine ⟨c, cs, rfl, ?_, (not_isNameStart_of_isDecimal hc).2⟩
      cases hlayout : isLayout c with
      | false => rfl
      | true =>
        rw [seamless_isDecimal c (by simp [endsToken, hlayout])] at hc
        exact absurd hc (by simp)
  | @assign text h =>
    rcases h with rfl | rfl
    · exact ⟨':', ['='], by decide, by decide, by decide⟩
    · exact ⟨'🡨', [], by decide, by decide, by decide⟩

/-! ### Lexemes with layout between them -/

/-- Lexemes with layout between any two of them, and perhaps after the last. -/
inductive Spread : List Lexeme → List Char → Prop
  | nil : Spread [] []
  | cons {l : Lexeme} {ls : List Lexeme} {gap cs : List Char}
      (hgap : ∀ c ∈ gap, isLayout c = true) (hne : ls ≠ [] → gap ≠ []) (h : Spread ls cs) :
      Spread (l :: ls) (l.text.toList ++ (gap ++ cs))

theorem Spread.breaksOff_gap {gap cs : List Char} (h : Spread ls cs)
    (hgap : ∀ c ∈ gap, isLayout c = true) (hne : ls ≠ [] → gap ≠ []) :
    breaksOff (gap ++ cs) = true := by
  apply breaksOff_append hgap
  intro hnil
  cases h with
  | nil => rfl
  | cons => exact absurd hnil (hne (by simp))

/-- **A text of lexemes is derived as the lexemes are read.**  The places of the tokens depend
    only on the text. -/
theorem deriveFrom_spread {cs : List Char} (h : Spread ls cs) (hfree : ∀ l ∈ ls, l.IsFree) :
    ∀ (gap : List Char) (place : Place), (∀ c ∈ gap, isLayout c = true) →
      ∃ ts : List Token, ts.map Token.lexeme = ls ∧
        ∀ (fuel : Nat) (stack : Stack) (last : Place) (d : Derivation), cs.length < fuel →
          readTokens stack ts = some d → deriveFrom fuel stack last place (gap ++ cs) = .ok d := by
  induction h with
  | nil =>
    intro gap place hgap
    refine ⟨[], rfl, fun fuel stack last d hfuel hread => ?_⟩
    obtain ⟨fuel, rfl⟩ : ∃ n, fuel = n + 1 := ⟨fuel - 1, by omega⟩
    simp only [readTokens] at hread
    simp only [deriveFrom, skipLayout_append place hgap, skipLayout]
    cases hfeed : feed none stack with
    | accept d' => simpa [hfeed] using hread
    | shift target next => simp [hfeed] at hread
    | stuck next => simp [hfeed] at hread
  | @cons l ls gap' cs hgap' hne hspread ih =>
    intro gap place hgap
    have hl := hfree l mem_cons_self
    obtain ⟨c, text, htext, hlayout, hmark⟩ := hl.text_eq_cons
    let place' := place.advance gap
    obtain ⟨ts, hts, hderive⟩ := ih (fun l hl => hfree l (mem_cons_of_mem _ hl)) gap'
      (place'.advance l.text.toList) hgap'
    refine ⟨⟨l.kind, l.text, place'⟩ :: ts, by simp [hts, Token.lexeme], ?_⟩
    intro fuel stack last d hfuel hread
    obtain ⟨fuel, rfl⟩ : ∃ n, fuel = n + 1 := ⟨fuel - 1, by omega⟩
    have hskip : skipLayout place (gap ++ (l.text.toList ++ (gap' ++ cs)))
        = (place', c :: (text ++ (gap' ++ cs))) := by
      rw [skipLayout_append place hgap, htext]
      simp [skipLayout, hlayout, place']
    simp only [readTokens] at hread
    cases hfeed : feed (some l.kind) stack with
    | accept d' => simp [hfeed] at hread
    | stuck next => simp [hfeed] at hread
    | shift target below =>
      simp only [hfeed] at hread
      have hlex : lexIn (takes stack.state) place' (c :: (text ++ (gap' ++ cs)))
          = some (⟨l.kind, l.text, place'⟩, gap' ++ cs) := by
        have hbreaks := hspread.breaksOff_gap hgap' hne
        have hhead : l.text.toList.head? ≠ some '►' := by simpa [htext] using hmark
        have happend := lexIn_append (takes stack.state) place' hhead hbreaks
        rw [hl.lexIn (isSome_action_of_feed hfeed) place', htext] at happend
        simpa using happend
      have hlength : cs.length < fuel := by
        simp only [htext, length_append, length_cons] at hfuel
        omega
      simp only [deriveFrom, hskip, hlex, hfeed]
      exact hderive fuel _ _ d hlength hread

/-- Lexemes with layout between any two of them, and perhaps before and after them. -/
def SpreadOut (ls : List Lexeme) (text : String) : Prop :=
  ∃ gap cs, (∀ c ∈ gap, isLayout c = true) ∧ Spread ls cs ∧ text.toList = gap ++ cs

/-- Lexemes with a space after each. -/
def spaced (ls : List Lexeme) : String :=
  String.ofList (ls.flatMap fun l => l.text.toList ++ [' '])

theorem spreadOut_spaced (ls : List Lexeme) : SpreadOut ls (spaced ls) := by
  refine ⟨[], ls.flatMap fun l => l.text.toList ++ [' '], by simp, ?_, by simp [spaced]⟩
  induction ls with
  | nil => exact .nil
  | cons l ls ih =>
    rw [flatMap_cons, append_assoc]
    exact .cons (by simp [isLayout]) (by simp) ih

/-- The derivation of a text is what its lexemes are read as. -/
theorem derive_spreadOut (h : SpreadOut ls text) (hfree : ∀ l ∈ ls, l.IsFree) :
    ∃ ts : List Token, ts.map Token.lexeme = ls ∧
      ∀ d, readTokens [] ts = some d → derive text.toList = .ok d := by
  obtain ⟨gap, cs, hgap, hspread, htext⟩ := h
  obtain ⟨ts, hts, hderive⟩ := deriveFrom_spread hspread hfree gap Place.origin hgap
  refine ⟨ts, hts, fun d hread => ?_⟩
  rw [derive, htext]
  exact hderive _ _ _ d (by simp only [length_append]; omega) hread

end Ordo
