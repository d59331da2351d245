import Ordo.Json.Reader
import Ordo.Text.Blank
import Ordo.Text.Search

namespace Ordo.Answer

/-!
# JSON in answers

A model puts the JSON it is asked for between other text.

* `fenced` — the text between code fences, or all of it if there are none;
* `braced?` — the text from the first opening to the last closing brace.
-/

/-- What starts and ends a block of code. -/
def fence : List Char := ['`', '`', '`']

/-- What starts a block of JSON. -/
def jsonFence : List Char := fence ++ ['j', 's', 'o', 'n']

/-- The text up to the next fence.  A block that is not closed loses its last character. -/
def upToFence (cs : List Char) : List Char :=
  match Text.splitFirst? fence cs with
  | some (before, _) => before
  | none => cs.dropLast

/-- The text in the first block of JSON; else in the first block of any code; else all of
    it. -/
def fenced (cs : List Char) : List Char :=
  Text.trim <|
    match Text.splitFirst? jsonFence cs with
    | some (_, after) => upToFence after
    | none =>
        match Text.splitFirst? fence cs with
        | some (_, after) => upToFence after
        | none => cs

/-- The value in fenced JSON. -/
def readFenced (s : String) : Except Json.ReadError Value :=
  Json.read (String.ofList (fenced s.toList))

/-- The text from the first opening to the last closing brace. -/
def braced? (cs : List Char) : Option (List Char) :=
  match ((cs.dropWhile (· != '\x7b')).reverse.dropWhile (· != '\x7d')).reverse with
  | [] => none
  | found => some found

end Ordo.Answer
