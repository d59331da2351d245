import Ordo.Agent.Answer
import Ordo.Agent.Conversation
import Ordo.Agent.Prompt.Iterative
import Ordo.Agent.Prompt.Recursive

namespace Ordo

/-!
# Extraction by the model

A specialist shows the model a subroutine and asks for its equations as JSON.

* `Specialist.agent`, `Specialist.prompt` — the tools and the words of a specialist;
* `Finding` — what comes of it;
* `Specialist.examine` — the conversation.
-/

namespace Specialist

/-- The tools of a specialist. -/
def agent : Specialist → Agent
  | recursive => .recursive
  | iterative => .iterative

/-- The first message, about a named subroutine. -/
def prompt (s : Specialist) (subject : Value) (name : String) : String :=
  let tree := Json.write Json.indentedStyle subject
  match s with
  | recursive => Prompt.recursive tree name
  | iterative => Prompt.iterative tree name

/-- The most turns of a conversation. -/
def turnLimit : Limit := 5

end Specialist

/-- What comes of showing a subroutine to the model. -/
inductive Finding
  /-- The data that it answers. -/
  | read (data turns : Value) (raw : String)
  /-- An answer that is no JSON. -/
  | unreadable (error : Json.ReadError) (turns : Value) (raw : String)
  /-- No answer. -/
  | missing (error : String) (turns : Value)

namespace Finding

/-- The data, or what went wrong. -/
def result : Finding → Except String Value
  | read data _ _ => .ok data
  | unreadable e _ _ => .error ("No se pudo parsear la respuesta como JSON: " ++ e.message)
  | missing e _ => .error e

/-- A finding as data. -/
def toRecord (f : Finding) : Value :=
  match f, f.result with
  | read data turns raw, _ =>
      .dict [("success", .bool true), ("extraction", data), ("iterations", turns),
        ("raw_response", .str raw)]
  | unreadable _ turns raw, .error e =>
      .dict [("error", .str e), ("raw_response", .str raw), ("iterations", turns)]
  | missing e turns, _ => .dict [("error", .str e), ("iterations", turns)]
  | unreadable _ _ _, .ok data => data

/-- What an ending of the conversation comes to.  A number too long to be read is a failure. -/
def ofEnding (e : Ending) : Except Failure Finding :=
  match e.result with
  | .ok text =>
      match Answer.readFenced text with
      | .ok data => .ok (.read data e.turns text)
      | .error (.syntaxFault fault line column pos) =>
          .ok (.unreadable (.syntaxFault fault line column pos) e.turns text)
      | .error (.numeral n) => .error (.json (.numeral n))
  | .error message => .ok (.missing message e.turns)

end Finding

/-- Shows a subroutine to the model and asks for its equations. -/
def Specialist.examine (s : Specialist) (subject : Value) (name : String) : Session Finding := do
  let ending ← s.agent.converse (.str (s.prompt subject name)) turnLimit
  Session.ofExcept (Finding.ofEnding ending)

end Ordo
