import Ordo.Agent.Limit
import Ordo.Failure
import Ordo.Json.Writer

namespace Ordo

/-!
# Conversations

An agent talks with the model in turns.  As long as the model asks for tools, they are run and
their results are sent back; a turn without tools ends the conversation.

* `Agent` — the tools that are offered to the model, and those that it gets;
* `toolResults` — the results of the tools that a reply asks for;
* `Ending` — how a conversation ends;
* `Agent.converse` — a conversation of at most so many turns.
-/

/-- An agent, by its tools. -/
structure Agent where
  /-- The tools that the model is told of. -/
  offered : List Tool
  /-- The tools that are run if the model asks for them. -/
  known : List Tool

namespace Agent

/-- The agent with all tools for programs. -/
def general : Agent := ⟨Tool.analysis, Tool.analysis⟩

/-- The agent for recursive algorithms. -/
def recursive : Agent := ⟨Tool.recursion, Tool.analysis⟩

/-- The agent for iterative algorithms. -/
def iterative : Agent := ⟨Tool.iteration, Tool.analysis⟩

/-- The agent for equations. -/
def resolver : Agent := ⟨Tool.equations, Tool.equations⟩

/-- The known tool of a name. -/
def tool? (agent : Agent) (name : String) : Option Tool :=
  agent.known.find? fun t => t.name == name

/-- What the named tool tells the model.  A name that is no text is the name of no tool, and
    some cannot even be looked up. -/
def useTool (agent : Agent) (name input : Value) : Except Failure Value :=
  match name.text?.bind agent.tool?, name.keyFault? with
  | some t, _ => .ok (t.answer input)
  | none, some e => .error (.access e)
  | none, none => .error (.unknownTool name.text)

end Agent

/-- The results of the tools that a reply asks for, in its order. -/
def toolResults (agent : Agent) : List Block → Except Failure (List ToolResult)
  | [] => .ok []
  | .toolUse id name input :: rest => do
      let result ← agent.useTool name input
      return ⟨id, Json.write Json.plainStyle result⟩ :: (← toolResults agent rest)
  | _ :: rest => toolResults agent rest

/-- The text of a reply, to which only texts can be added. -/
def replyText : List Block → Except AccessError String
  | [] => .ok ""
  | .text content :: rest =>
      match content.text? with
      | some s => do return s ++ (← replyText rest)
      | none => .error (.badOperands "+=" "str" content.className)
  | _ :: rest => replyText rest

/-- How a conversation ends. -/
inductive Ending
  /-- With a text, after so many turns. -/
  | finished (text : String) (turns : Nat)
  /-- For a reason that is not expected, after so many turns. -/
  | stopped (reason : String) (turns : Nat)
  /-- At the limit. -/
  | exhausted (limit : Limit)
  deriving DecidableEq, Repr

namespace Ending

/-- The number of turns that is reported. -/
def turns : Ending → Value
  | finished _ n => .int n
  | stopped _ n => .int n
  | exhausted limit => limit.toValue

/-- The text, or what went wrong. -/
def result : Ending → Except String String
  | finished text _ => .ok text
  | stopped reason _ => .error ("Stop reason inesperado: " ++ reason)
  | exhausted _ => .error "Se excedió el máximo de iteraciones"

/-- An ending as data. -/
def toRecord (e : Ending) : Value :=
  match e.result with
  | .ok text =>
      .dict [("success", .bool true), ("response", .str text), ("iterations", e.turns)]
  | .error message =>
      .dict [("success", .bool false), ("error", .str message), ("iterations", e.turns)]

end Ending

namespace Agent

/-- How much the model may write in a turn. -/
def maxTokens : Nat := 8000

/-- The request for the next turn. -/
def request (agent : Agent) (messages : List Message) : Request :=
  ⟨messages, some agent.offered, maxTokens⟩

/-- At most `left` more turns of a conversation that already has `made` turns. -/
def takeTurns (agent : Agent) (limit : Limit) : Nat → Nat → List Message → Session Ending
  | 0, _, _ => return .exhausted limit
  | left + 1, made, messages => do
      let reply ← Session.reply (agent.request messages)
      match reply.stop with
      | .endTurn => return .finished (← Session.ofData (replyText reply.content)) (made + 1)
      | .toolUse => do
          let results ← Session.ofExcept (toolResults agent reply.content)
          agent.takeTurns limit left (made + 1)
            (messages ++ [.assistant reply.content, .results results])
      | .other reason => return .stopped reason (made + 1)

/-- A conversation that starts with a prompt and has at most `limit` turns. -/
def converse (agent : Agent) (prompt : Value) (limit : Limit) : Session Ending :=
  agent.takeTurns limit limit.tries 0 [.prompt prompt]

end Agent

end Ordo
