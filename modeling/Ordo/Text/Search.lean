namespace Ordo.Text

/-!
# Searching in text

* `occurs` — whether one text occurs in another;
* `splitFirst?` — what stands before and after the first occurrence;
* `lines` — the lines of a text.
-/

/-- Whether one text occurs in another. -/
def occurs (pattern : List Char) : List Char → Bool
  | [] => pattern.isEmpty
  | c :: cs => pattern.isPrefixOf (c :: cs) || occurs pattern cs

/-- What stands before and after the first occurrence of one text in another. -/
def splitFirst? (pattern : List Char) : List Char → Option (List Char × List Char)
  | [] => if pattern.isEmpty then some ([], []) else none
  | c :: cs =>
      if pattern.isPrefixOf (c :: cs) then some ([], (c :: cs).drop pattern.length)
      else (splitFirst? pattern cs).map fun (before, after) => (c :: before, after)

/-- The lines of a text, without the line breaks between them. -/
def lines : List Char → List (List Char)
  | [] => [[]]
  | c :: cs =>
      if c = '\n' then [] :: lines cs
      else match lines cs with
        | l :: ls => (c :: l) :: ls
        | [] => [[c]]

end Ordo.Text
