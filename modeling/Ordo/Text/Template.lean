namespace Ordo.Text

/-!
# Templates

A template is a sequence of pieces.  Each piece fits a run of characters of one class, as long
or as short as possible; where the rest of the template does not fit after it, the next shorter
or longer run is tried.

* `Piece`, `Template` — pieces, and templates as lists of them;
* `Template.fit` — how a template fits the start of a text;
* `Template.search` — its first fit in a text;
* `Template.replace` — a text with all fits replaced.
-/

/-- A piece of a template. -/
structure Piece where
  accepts : Char → Bool
  /-- The fewest characters. -/
  least : Nat
  /-- The most characters; unbounded if absent. -/
  most : Option Nat
  /-- Whether longer runs are tried first. -/
  greedy : Bool
  /-- Whether the run is part of the result. -/
  kept : Bool

/-- A sequence of pieces. -/
abbrev Template := List Piece

namespace Piece

/-- One given character. -/
def char (c : Char) : Piece := ⟨(· == c), 1, some 1, true, false⟩

/-- A given character or nothing. -/
def optional (c : Char) : Piece := ⟨(· == c), 0, some 1, true, false⟩

/-- Characters of a class, or none, which are not kept. -/
def skip (accepts : Char → Bool) : Piece := ⟨accepts, 0, none, true, false⟩

/-- As many characters of a class as possible, at least one. -/
def longest (accepts : Char → Bool) : Piece := ⟨accepts, 1, none, true, true⟩

/-- As few characters of a class as possible, at least one. -/
def shortest (accepts : Char → Bool) : Piece := ⟨accepts, 1, none, false, true⟩

/-- The longest run that a piece fits at the start of a text. -/
def limit (p : Piece) (cs : List Char) : Nat :=
  let run := (cs.takeWhile p.accepts).length
  match p.most with
  | some most => min most run
  | none => run

/-- The lengths of run to be tried, in order. -/
def lengths (p : Piece) (cs : List Char) : List Nat :=
  let ks := (List.range (p.limit cs + 1)).drop p.least
  if p.greedy then ks.reverse else ks

end Piece

namespace Template

/-- A given text, character by character. -/
def text (s : String) : Template := s.toList.map Piece.char

/-- How a template fits the start of a text: the kept runs, and the rest of the text. -/
def fit : Template → List Char → Option (List (List Char) × List Char)
  | [], cs => some ([], cs)
  | p :: ps, cs =>
      (p.lengths cs).findSome? fun k =>
        match fit ps (cs.drop k) with
        | some (runs, rest) => some (if p.kept then (cs.take k :: runs, rest) else (runs, rest))
        | none => none

/-- The kept runs of the first fit in a text. -/
def search (t : Template) : List Char → Option (List (List Char))
  | [] => (t.fit []).map Prod.fst
  | c :: cs =>
      match t.fit (c :: cs) with
      | some (runs, _) => some runs
      | none => search t cs

/-- Replaces the fits in a text, of which the first `skipped` characters are dropped. -/
def replaceFrom (t : Template) (write : List (List Char) → List Char) :
    Nat → List Char → List Char
  | _, [] => []
  | skipped + 1, _ :: cs => replaceFrom t write skipped cs
  | 0, c :: cs =>
      match t.fit (c :: cs) with
      | some (runs, rest) => write runs ++ replaceFrom t write (cs.length - rest.length) cs
      | none => c :: replaceFrom t write 0 cs

/-- A text with every fit replaced, from left to right. -/
def replace (t : Template) (write : List (List Char) → List Char) (cs : List Char) :
    List Char := replaceFrom t write 0 cs

end Template

end Ordo.Text
