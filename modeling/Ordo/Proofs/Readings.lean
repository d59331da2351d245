import Mathlib.Data.List.TakeWhile
import Ordo.Syntax.Token

namespace Ordo.Reading

/-!
# Reading shown expressions

What an expression is shown as consists of pieces with blanks between them: operators, and
operands with their signs, indices and arguments.  Brackets are written only around indices and
arguments, so the pieces do not tell how operators are nested.  They are all that there is to
read: each text has one reading.

* `Word`, `Piece`, `Tail`, `Pieces` — words and pieces, with their texts;
* `readPieces` — reads the pieces that a text starts with;
* `readPieces_text` — what was written is read, up to where it ends;
* `Pieces.text_injective` — different pieces have different texts.
-/

open List

/-! ### Pieces -/

/-- Signs. -/
inductive Sign
  | plus | minus
  deriving DecidableEq, Repr

/-- Operators that are no words. -/
inductive Mark
  | sign (s : Sign)
  | star | slash | circumflex | equals
  deriving DecidableEq, Repr

def Sign.char : Sign → Char
  | plus => '+'
  | minus => '-'

def Mark.char : Mark → Char
  | sign s => s.char
  | star => '*'
  | slash => '/'
  | circumflex => '^'
  | equals => '='

def Mark.ofChar? : Char → Option Mark
  | '+' => some (sign .plus)
  | '-' => some (sign .minus)
  | '*' => some star
  | '/' => some slash
  | '^' => some circumflex
  | '=' => some equals
  | _ => none

/-- Words go on with name characters, and with the signs in exponents and counts. -/
def isWordChar (c : Char) : Bool := isNameChar c || c = '+' || c = '-' || c = '='

/-- Words, such as names and numbers. -/
structure Word where
  chars : List Char
  starts : chars.head?.any isNameChar = true
  goesOn : chars.all isWordChar = true
  deriving DecidableEq

mutual

/-- An operator, or an operand with its signs. -/
inductive Piece
  | signed (s : Sign) (p : Piece)
  | mark (m : Mark)
  | named (w : Word) (t : Tail)

/-- What follows a word. -/
inductive Tail
  | nothing
  | dot (w : Word)
  | arguments (gs : List Pieces)
  | indices (g : Pieces) (gs : List Pieces)
  | range (start stop : Pieces)
  /-- Indices that are not shown. -/
  | elided

/-- Pieces with blanks between them. -/
inductive Pieces
  | one (p : Piece)
  | more (p : Piece) (ps : Pieces)

end

mutual

def Piece.text : Piece → List Char
  | .signed s p => s.char :: p.text
  | .mark m => [m.char]
  | .named w t => w.chars ++ t.text

def Tail.text : Tail → List Char
  | .nothing => []
  | .dot w => '.' :: w.chars
  | .arguments [] => ['(', ')']
  | .arguments (g :: gs) => '(' :: (g.text ++ argumentsText gs)
  | .indices g gs => '[' :: (g.text ++ ']' :: indicesText gs)
  | .range start stop => '[' :: (start.text ++ '.' :: '.' :: (stop.text ++ [']']))
  | .elided => ['[', '.', '.', '.', ']']

def Pieces.text : Pieces → List Char
  | .one p => p.text
  | .more p ps => p.text ++ ' ' :: ps.text

/-- Further arguments, and the bracket after them. -/
def argumentsText : List Pieces → List Char
  | [] => [')']
  | g :: gs => ',' :: ' ' :: (g.text ++ argumentsText gs)

/-- Further indices. -/
def indicesText : List Pieces → List Char
  | [] => []
  | g :: gs => '[' :: (g.text ++ ']' :: indicesText gs)

end

/-! ### Making pieces -/

/-- The text of a word. -/
def Word.text (w : Word) : String := String.ofList w.chars

/-- The text of pieces. -/
def Pieces.shown (g : Pieces) : String := String.ofList g.text

theorem all_isWordChar {cs : List Char} (h : ∀ c ∈ cs, isNameChar c = true) :
    cs.all isWordChar = true := by
  rw [all_eq_true]
  intro c hc
  simp [isWordChar, h c hc]

/-- Name characters make a word. -/
def Word.ofName (cs : List Char) (hne : cs ≠ []) (h : ∀ c ∈ cs, isNameChar c = true) : Word where
  chars := cs
  starts := by
    obtain ⟨c, cs, rfl⟩ := exists_cons_of_ne_nil hne
    exact h c mem_cons_self
  goesOn := all_isWordChar h

theorem isNameChar_of_mem_toDigits {n : Nat} {c : Char} (h : c ∈ Nat.toDigits 10 n) :
    isNameChar c = true := by
  have hdigit : c.isDigit = true := Nat.isDigit_of_mem_toDigits (by decide) (by decide) h
  have halphanum : c.isAlphanum = true := Bool.or_eq_true_iff.mpr (.inr hdigit)
  rw [isNameChar, halphanum, Bool.true_or]

/-- The digits of a number. -/
def Word.ofNat (n : Nat) : Word :=
  .ofName (Nat.toDigits 10 n) Nat.toDigits_ne_nil fun _ => isNameChar_of_mem_toDigits

/-- A number of arguments. -/
def Word.ofCount (n : Nat) : Word where
  chars := "args=".toList ++ Nat.toDigits 10 n
  starts := rfl
  goesOn := by
    rw [all_append, Bool.and_eq_true]
    exact ⟨rfl, (Word.ofNat n).goesOn⟩

/-- A given word. -/
def Word.of (s : String) (hstarts : s.toList.head?.any isNameChar = true := by decide)
    (hgoesOn : s.toList.all isWordChar = true := by decide) : Word :=
  ⟨s.toList, hstarts, hgoesOn⟩

variable (n : Nat) (p : Piece) (w : Word) (g : Pieces) (gs : List Pieces)

@[simp] theorem Word.chars_ofNat : (Word.ofNat n).chars = Nat.toDigits 10 n := rfl

@[simp] theorem Word.chars_ofCount :
    (Word.ofCount n).chars = "args=".toList ++ Nat.toDigits 10 n := rfl

@[simp] theorem Word.chars_of (s : String) (hstarts hgoesOn) :
    (Word.of s hstarts hgoesOn).chars = s.toList := rfl

@[simp] theorem Word.toList_text : w.text.toList = w.chars := String.toList_ofList

/-- A word alone. -/
def Piece.word (w : Word) : Piece := .named w .nothing

/-- A word with arguments. -/
def Piece.apply (w : Word) (gs : List Pieces) : Piece := .named w (.arguments gs)

@[simp] theorem Piece.text_word : (Piece.word w).text = w.chars := by
  rw [word, text, Tail.text, append_nil]

@[simp] theorem Piece.text_apply_nil : (Piece.apply w []).text = w.chars ++ ['(', ')'] := rfl

@[simp] theorem Piece.text_apply_cons :
    (Piece.apply w (g :: gs)).text = w.chars ++ '(' :: (g.text ++ argumentsText gs) := rfl

def Pieces.append : Pieces → Pieces → Pieces
  | .one p, h => .more p h
  | .more p g, h => .more p (g.append h)

/-- With a sign before the first piece. -/
def Pieces.signed (s : Sign) : Pieces → Pieces
  | .one p => .one (.signed s p)
  | .more p g => .more (.signed s p) g

@[simp] theorem Pieces.text_append (g h : Pieces) :
    (g.append h).text = g.text ++ ' ' :: h.text := by
  cases g with
  | one p => rfl
  | more p g => simp [append, text, text_append g h]

@[simp] theorem Pieces.text_signed (s : Sign) (g : Pieces) :
    (g.signed s).text = s.char :: g.text := by
  cases g <;> rfl

/-! ### Reading -/

/-- The word that a text starts with. -/
def Word.read? (cs : List Char) : Option (Word × List Char) :=
  if h : (cs.takeWhile isWordChar).head?.any isNameChar = true then
    some (⟨cs.takeWhile isWordChar, h, all_takeWhile⟩, cs.dropWhile isWordChar)
  else none

/-- Whether a piece starts here, after a sign. -/
def startsPiece (cs : List Char) : Bool :=
  cs.head?.any fun c => isNameChar c || (Mark.ofChar? c).isSome

mutual

/-- The piece that a text starts with. -/
def readPiece : Nat → List Char → Option (Piece × List Char)
  | 0, _ | _, [] => none
  | fuel + 1, c :: cs =>
      match Mark.ofChar? c with
      | some (.sign s) =>
          if startsPiece cs then (readPiece fuel cs).map fun (p, rest) => (.signed s p, rest)
          else some (.mark (.sign s), cs)
      | some m => some (.mark m, cs)
      | none => do
          let (w, rest) ← Word.read? (c :: cs)
          let (t, rest) ← readTail fuel rest
          return (.named w t, rest)

/-- What follows a word. -/
def readTail : Nat → List Char → Option (Tail × List Char)
  | 0, _ => none
  | fuel + 1, '(' :: cs =>
      if cs.head? = some ')' then some (.arguments [], cs.tail)
      else do
        let (g, rest) ← readPieces fuel cs
        let (gs, rest) ← readArguments fuel rest
        return (.arguments (g :: gs), rest)
  | fuel + 1, '[' :: cs =>
      if cs.head? = some '.' then (afterPrefix? "...]".toList cs).map fun rest => (.elided, rest)
      else do
        let (g, rest) ← readPieces fuel cs
        if rest.head? = some ']' then
          let (gs, rest) ← readIndices fuel rest.tail
          return (.indices g gs, rest)
        else
          let (stop, rest) ← readPieces fuel (← afterPrefix? "..".toList rest)
          return (.range g stop, ← afterPrefix? "]".toList rest)
  | _ + 1, cs =>
      match (afterPrefix? ".".toList cs).bind Word.read? with
      | some (w, rest) => some (.dot w, rest)
      | none => some (.nothing, cs)

/-- The pieces that a text starts with. -/
def readPieces : Nat → List Char → Option (Pieces × List Char)
  | 0, _ => none
  | fuel + 1, cs => do
      let (p, rest) ← readPiece fuel cs
      if rest.head? = some ' ' then
        let (ps, rest) ← readPieces fuel rest.tail
        return (.more p ps, rest)
      else return (.one p, rest)

/-- Further arguments, up to the bracket after them. -/
def readArguments : Nat → List Char → Option (List Pieces × List Char)
  | 0, _ => none
  | fuel + 1, ',' :: ' ' :: cs => do
      let (g, rest) ← readPieces fuel cs
      let (gs, rest) ← readArguments fuel rest
      return (g :: gs, rest)
  | _ + 1, ')' :: cs => some ([], cs)
  | _ + 1, _ => none

/-- Further indices. -/
def readIndices : Nat → List Char → Option (List Pieces × List Char)
  | 0, _ => none
  | fuel + 1, '[' :: cs => do
      let (g, rest) ← readPieces fuel cs
      let (gs, rest) ← readIndices fuel (← afterPrefix? "]".toList rest)
      return (g :: gs, rest)
  | _ + 1, cs => some ([], cs)

end

/-! ### Where pieces end -/

/-- What follows a piece. -/
inductive EndsPiece : List Char → Prop
  | nil : EndsPiece []
  | blank (cs : List Char) : EndsPiece (' ' :: cs)
  | comma (cs : List Char) : EndsPiece (',' :: cs)
  | round (cs : List Char) : EndsPiece (')' :: cs)
  | square (cs : List Char) : EndsPiece (']' :: cs)
  | dots (cs : List Char) : EndsPiece ('.' :: '.' :: cs)

variable {rest : List Char} {c : Char}

attribute [local simp] Piece.text readPiece Tail.text readTail argumentsText afterPrefix?
  Pieces.text

theorem EndsPiece.head?_ne (h : EndsPiece rest) (hc : rest.head? = some c) :
    isWordChar c = false ∧ Mark.ofChar? c = none ∧ c ≠ '(' ∧ c ≠ '[' := by
  cases h <;> cases hc <;> decide

theorem EndsPiece.not_startsPiece (h : EndsPiece rest) : startsPiece rest = false := by
  cases h <;> rfl

/-- A word is read up to where it cannot go on. -/
theorem Word.read?_append (h : ∀ c, rest.head? = some c → isWordChar c = false) :
    Word.read? (w.chars ++ rest) = some (w, rest) := by
  have hchars : ∀ c ∈ w.chars, isWordChar c = true := all_eq_true.mp w.goesOn
  have hend : rest.takeWhile isWordChar = [] ∧ rest.dropWhile isWordChar = rest := by
    cases rest with
    | nil => exact ⟨rfl, rfl⟩
    | cons c rest => simp [h c rfl]
  have htake : (w.chars ++ rest).takeWhile isWordChar = w.chars := by
    rw [takeWhile_append_of_pos hchars, hend.1, append_nil]
  have hdrop : (w.chars ++ rest).dropWhile isWordChar = rest := by
    rw [dropWhile_append_of_pos hchars, hend.2]
  unfold Word.read?
  simp only [htake, hdrop, w.starts, dif_pos]

theorem Mark.ofChar?_char (m : Mark) : Mark.ofChar? m.char = some m := by
  cases m with
  | sign s => cases s <;> rfl
  | _ => rfl

theorem Mark.ofChar?_of_isNameChar (h : isNameChar c = true) : Mark.ofChar? c = none := by
  unfold Mark.ofChar?
  split
  case h_7 => rfl
  all_goals exact absurd h (by decide)

theorem Word.exists_cons : ∃ c cs, w.chars = c :: cs ∧ isNameChar c = true := by
  have hstarts := w.starts
  cases hchars : w.chars with
  | nil => simp [hchars] at hstarts
  | cons c cs => exact ⟨c, cs, rfl, by simpa [hchars] using hstarts⟩

/-- Every piece starts with a character that no bracket or point is. -/
theorem Piece.exists_cons :
    ∃ c cs, p.text = c :: cs ∧ (isNameChar c || (Mark.ofChar? c).isSome) = true := by
  cases p with
  | signed s p => exact ⟨_, _, rfl, by cases s <;> rfl⟩
  | mark m => exact ⟨_, _, rfl, by simp [Mark.ofChar?_char]⟩
  | named w t =>
    obtain ⟨c, cs, hw, hc⟩ := w.exists_cons
    exact ⟨c, cs ++ t.text, by simp [hw], by simp [hc]⟩

theorem Pieces.exists_cons :
    ∃ c cs, g.text = c :: cs ∧ (isNameChar c || (Mark.ofChar? c).isSome) = true := by
  cases g with
  | one p => exact p.exists_cons
  | more p ps =>
    obtain ⟨c, cs, hp, hc⟩ := p.exists_cons
    exact ⟨c, cs ++ ' ' :: ps.text, by simp [hp], hc⟩

theorem Pieces.head?_ne (rest : List Char) (hc : (isNameChar c || (Mark.ofChar? c).isSome) = false) :
    (g.text ++ rest).head? ≠ some c := by
  obtain ⟨d, cs, hg, hd⟩ := g.exists_cons
  rw [hg]
  rintro ⟨⟩
  exact Bool.false_ne_true (hc.symm.trans hd)

theorem Piece.startsPiece_text (rest : List Char) : startsPiece (p.text ++ rest) = true := by
  obtain ⟨c, cs, hp, hc⟩ := p.exists_cons
  simpa [startsPiece, hp] using hc

/-! ### What was written is read -/

theorem Tail.head?_not_isWordChar (t : Tail) (h : EndsPiece rest)
    (hc : (t.text ++ rest).head? = some c) : isWordChar c = false := by
  cases t with
  | nothing => exact (h.head?_ne hc).1
  | arguments gs => cases gs <;> cases hc <;> rfl
  | _ => cases hc; rfl

theorem endsPiece_argumentsText (rest : List Char) :
    EndsPiece (argumentsText gs ++ rest) ∧ (argumentsText gs ++ rest).head? ≠ some ' ' := by
  cases gs with
  | nil => exact ⟨.round _, by simp⟩
  | cons g gs => exact ⟨.comma _, by simp⟩

mutual

/-- A piece is read up to where it ends. -/
theorem readPiece_text (p : Piece) (fuel : Nat) (hfuel : sizeOf p ≤ fuel) {rest : List Char}
    (hrest : EndsPiece rest) : readPiece fuel (p.text ++ rest) = some (p, rest) := by
  cases fuel with
  | zero => cases p <;> simp at hfuel
  | succ fuel =>
    cases p with
    | signed s p =>
      have hp := readPiece_text p fuel (by simp at hfuel; omega) hrest
      cases s <;>
        simp [Sign.char, Mark.ofChar?, p.startsPiece_text, hp]
    | mark m =>
      cases m with
      | sign s =>
        cases s <;> simp [Mark.char, Sign.char, Mark.ofChar?, hrest.not_startsPiece]
      | _ => simp [Mark.char, Mark.ofChar?]
    | named w t =>
      have ht := readTail_text t fuel (by simp at hfuel; omega) hrest
      have hw := w.read?_append fun c => t.head?_not_isWordChar hrest (c := c)
      obtain ⟨c, cs, hchars, hc⟩ := w.exists_cons
      rw [hchars, cons_append] at hw
      simp [hchars, Mark.ofChar?_of_isNameChar hc, hw, ht]

/-- What follows a word is read up to where it ends. -/
theorem readTail_text (t : Tail) (fuel : Nat) (hfuel : sizeOf t ≤ fuel) {rest : List Char}
    (hrest : EndsPiece rest) : readTail fuel (t.text ++ rest) = some (t, rest) := by
  cases fuel with
  | zero => cases t <;> simp at hfuel
  | succ fuel =>
    cases t with
    | nothing => cases hrest <;> rfl
    | dot w =>
      have hw := w.read?_append fun c hc => (hrest.head?_ne hc).1
      simp [hw]
    | arguments gs =>
      cases gs with
      | nil => rfl
      | cons g gs =>
        obtain ⟨hends, hblank⟩ := endsPiece_argumentsText gs rest
        have hg := readPieces_text g fuel (by simp at hfuel; omega) hends hblank
        have hgs := readArguments_text gs fuel (by simp at hfuel; omega) rest
        have hround := g.head?_ne (argumentsText gs ++ rest) (c := ')') (by decide)
        simp [-head?_append, hround, hg, hgs]
    | indices g gs =>
      have hg := readPieces_text g fuel (by simp at hfuel; omega) (.square (indicesText gs ++ rest))
        (by simp)
      have hgs := readIndices_text gs fuel (by simp at hfuel; omega) hrest
      have hdot := g.head?_ne (']' :: (indicesText gs ++ rest)) (c := '.') (by decide)
      simp [-head?_append, hdot, hg, hgs]
    | range start stop =>
      have hstart := readPieces_text start fuel (by simp at hfuel; omega)
        (.dots (stop.text ++ ']' :: rest)) (by simp)
      have hstop := readPieces_text stop fuel (by simp at hfuel; omega) (.square rest) (by simp)
      have hdot := start.head?_ne ('.' :: '.' :: (stop.text ++ ']' :: rest)) (c := '.') (by decide)
      simp [-head?_append, hdot, hstart, hstop]
    | elided => rfl

/-- Pieces are read up to where they end. -/
theorem readPieces_text (g : Pieces) (fuel : Nat) (hfuel : sizeOf g ≤ fuel) {rest : List Char}
    (hrest : EndsPiece rest) (hblank : rest.head? ≠ some ' ') :
    readPieces fuel (g.text ++ rest) = some (g, rest) := by
  cases fuel with
  | zero => cases g <;> simp at hfuel
  | succ fuel =>
    cases g with
    | one p =>
      have hp := readPiece_text p fuel (by simp at hfuel; omega) hrest
      simp [readPieces, hp, hblank]
    | more p ps =>
      have hp := readPiece_text p fuel (by simp at hfuel; omega) (.blank (ps.text ++ rest))
      have hps := readPieces_text ps fuel (by simp at hfuel; omega) hrest hblank
      simp [readPieces, hp, hps]

theorem readArguments_text (gs : List Pieces) (fuel : Nat) (hfuel : sizeOf gs ≤ fuel)
    (rest : List Char) : readArguments fuel (argumentsText gs ++ rest) = some (gs, rest) := by
  cases fuel with
  | zero => cases gs <;> simp at hfuel
  | succ fuel =>
    cases gs with
    | nil => rfl
    | cons g gs =>
      obtain ⟨hends, hblank⟩ := endsPiece_argumentsText gs rest
      have hg := readPieces_text g fuel (by simp at hfuel; omega) hends hblank
      have hgs := readArguments_text gs fuel (by simp at hfuel; omega) rest
      simp [readArguments, hg, hgs]

theorem readIndices_text (gs : List Pieces) (fuel : Nat) (hfuel : sizeOf gs ≤ fuel)
    {rest : List Char} (hrest : EndsPiece rest) :
    readIndices fuel (indicesText gs ++ rest) = some (gs, rest) := by
  cases fuel with
  | zero => cases gs <;> simp at hfuel
  | succ fuel =>
    cases gs with
    | nil => cases hrest <;> rfl
    | cons g gs =>
      have hg := readPieces_text g fuel (by simp at hfuel; omega) (.square (indicesText gs ++ rest))
        (by simp)
      have hgs := readIndices_text gs fuel (by simp at hfuel; omega) hrest
      simp [indicesText, readIndices, hg, hgs]

end

/-- **Each text has one reading**: different pieces have different texts. -/
theorem Pieces.text_injective : Function.Injective Pieces.text := by
  intro g h htext
  have hg := readPieces_text g (sizeOf g + sizeOf h) (by omega) .nil (by simp)
  have hh := readPieces_text h (sizeOf g + sizeOf h) (by omega) .nil (by simp)
  rw [htext, hh] at hg
  exact (Prod.mk.inj (Option.some.inj hg)).1.symm

theorem Pieces.shown_injective : Function.Injective Pieces.shown :=
  fun _ _ h => text_injective (String.ofList_injective h)

end Ordo.Reading
