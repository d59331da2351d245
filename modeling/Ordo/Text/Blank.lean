namespace Ordo.Text

/-!
# Blanks

The white space of every script, and the operations that look for it:

* `isBlank` — space, tab, line and page breaks, the separator controls and the spaces of
  other scripts;
* `trim` — a text without blanks at its ends;
* `words` — the blank-free pieces of a text.
-/

/-- Code points of the blanks beyond the first 128 characters. -/
def wideBlanks : List Nat :=
  [0x85, 0xa0, 0x1680, 0x2000, 0x2001, 0x2002, 0x2003, 0x2004, 0x2005, 0x2006, 0x2007, 0x2008,
   0x2009, 0x200a, 0x2028, 0x2029, 0x202f, 0x205f, 0x3000]

/-- White space of any script. -/
def isBlank (c : Char) : Bool :=
  if c.toNat < 128 then (9 ≤ c.toNat && c.toNat ≤ 13) || (28 ≤ c.toNat && c.toNat ≤ 32)
  else wideBlanks.contains c.toNat

/-- A text without the blanks it ends with. -/
def trimEnd (cs : List Char) : List Char := (cs.reverse.dropWhile isBlank).reverse

/-- A text without blanks at its ends. -/
def trim (cs : List Char) : List Char := trimEnd (cs.dropWhile isBlank)

/-- The blank-free pieces of a text; `piece` holds the current one in reverse. -/
def wordsFrom (piece : List Char) : List Char → List (List Char)
  | [] => if piece.isEmpty then [] else [piece.reverse]
  | c :: cs =>
      if isBlank c then
        if piece.isEmpty then wordsFrom [] cs else piece.reverse :: wordsFrom [] cs
      else wordsFrom (c :: piece) cs

/-- The blank-free pieces of a text, in order. -/
def words (cs : List Char) : List (List Char) := wordsFrom [] cs

end Ordo.Text
