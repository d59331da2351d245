import Ordo.Agent.Answer
import Ordo.Agent.Limit
import Ordo.Agent.Prompt.Drafting
import Ordo.Failure

namespace Ordo

/-!
# Drafts of programs

The model is asked for a program that does what a description says, until it gives one that can
be parsed.

* `Draft.clean` — the program in a reply;
* `Draft.generate` — one draft;
* `Drafting` — what comes of several;
* `Draft.compose` — drafts until one can be parsed.
-/

namespace Draft

/-- What the lines around a program start with. -/
def chatter : List (List Char) :=
  [Answer.fence, ['#'], "Aquí".toList, "Este".toList]

/-- The lines of a program between code fences, and the other lines that do not look like
    chatter.  `inside` says whether the lines are between fences. -/
def codeLines (inside : Bool) : List (List Char) → List (List Char)
  | [] => []
  | line :: rest =>
      let start := Text.trim line
      if Answer.fence.isPrefixOf start then codeLines (!inside) rest
      else if inside || !chatter.any (·.isPrefixOf start) then line :: codeLines inside rest
      else codeLines inside rest

/-- The program in a reply. -/
def clean (reply : String) : String :=
  let cs := Text.trim reply.toList
  String.ofList <|
    if Text.occurs Answer.fence cs then
      Text.trim (['\n'].intercalate (codeLines false (Text.lines cs)))
    else cs

/-- The text that a part of a reply carries. -/
def carried : Block → Except AccessError String
  | .text content => content.textFor "strip"
  | .toolUse _ _ _ => .error (.noAttribute "Block" "text")
  | .other data =>
      match data.get? "text" with
      | some content => content.textFor "strip"
      | none => .error (.noAttribute "Block" "text")

/-- The text that a reply starts with. -/
def firstText : List Block → Except Failure String
  | [] => .error .emptyReply
  | block :: _ => (carried block).mapError .access

/-- How much the model may write. -/
def maxTokens : Nat := 3000

/-- A draft in reply to a prompt. -/
def generate (prompt : String) : Session (Except Failure String) :=
  Session.attempt do
    let reply ← Session.reply ⟨[.prompt (.str prompt)], none, maxTokens⟩
    return clean (← Session.ofExcept (firstText reply.content))

/-- What is said when there is no draft. -/
def failureText (f : Failure) : String := "Error generando: " ++ f.message

end Draft

/-- What comes of several drafts. -/
inductive Drafting
  /-- A program, at the given attempt. -/
  | accepted (pseudocode : String) (attempts : Nat)
  /-- No program within the limit; the last draft, if any, with its mistake. -/
  | rejected (limit : Limit) (last : Option (String × SyntaxError))
  /-- A draft could not be had. -/
  | failed (failure : Failure)

namespace Drafting

/-- How sure the program is. -/
def confidence (attempts : Nat) : String := if attempts = 1 then "high" else "medium"

/-- What is said when no draft can be parsed. -/
def rejection (limit : Limit) : String :=
  "No se pudo generar pseudocódigo válido después de " ++ limit.toValue.text ++ " intentos"

/-- What comes of drafts, as data. -/
def toRecord : Drafting → Value
  | accepted pseudocode attempts =>
      .dict [("success", .bool true), ("pseudocode", .str pseudocode),
        ("validated", .bool true), ("attempts", .int attempts),
        ("confidence", .str (confidence attempts))]
  | rejected limit last =>
      .dict [("success", .bool false), ("error", .str (rejection limit)),
        ("last_attempt", Value.ofText? (last.map Prod.fst)),
        ("last_error", Value.ofText? (last.map fun l => l.2.message)),
        ("validated", .bool false)]
  | failed f => .dict [("success", .bool false), ("error", .str (Draft.failureText f))]

end Drafting

namespace Draft

/-- At most `left` more drafts after `made` ones, the last of which may have had a mistake. -/
def attemptFrom (description : String) (limit : Limit) :
    Nat → Nat → Option (String × SyntaxError) → Session Drafting
  | 0, _, last => return .rejected limit last
  | left + 1, made, last => do
      let prompt := Prompt.drafting description (last.map fun l => l.2.message)
      match ← generate prompt with
      | .error f => return .failed f
      | .ok pseudocode =>
          match parse pseudocode with
          | .ok _ => return .accepted pseudocode (made + 1)
          | .error e => do
              Session.sayLine ("Intento " ++ toString (made + 1) ++ "/" ++ limit.toValue.text
                ++ " falló: " ++ e.message)
              attemptFrom description limit left (made + 1) (some (pseudocode, e))

/-- At most `limit` drafts of a program that does what is described. -/
def compose (description : String) (limit : Limit) : Session Drafting :=
  attemptFrom description limit limit.tries 0 none

/-- The usual limit. -/
def usualLimit : Limit := 2

end Draft

end Ordo
