import Ordo.Agent.Toolbox
import Ordo.Dialogue
import Ordo.Flowchart.Data
import Ordo.Json.Reader
import Ordo.Syntax.Build
import Ordo.Syntax.Diagnosis
import Ordo.Syntax.Parser

namespace Ordo

/-!
# Failures

* `Failure`, `Failure.message` — why an analysis fails, with the wording;
* `Session` — dialogues that may fail;
* `Session.attempt` — a session with its failure as a result.
-/

/-- The specialists for a type of algorithm. -/
inductive Specialist
  | recursive | iterative
  deriving DecidableEq, Repr

/-- Why an analysis fails. -/
inductive Failure
  | parse (e : SyntaxError)
  | build (e : BuildFailure)
  | analysis (e : AnalysisError)
  | access (e : AccessError)
  | json (e : Json.ReadError)
  | chart (e : Flowchart.Error)
  /-- The model or the cache fails. -/
  | service (message : String)
  /-- There is no key to the model. -/
  | noKey
  /-- There is no key to the model for drafting. -/
  | noDraftingKey
  | unknownTool (name : String)
  /-- An answer holds no JSON. -/
  | noJson
  /-- A reply is empty. -/
  | emptyReply
  /-- A specialist is not installed. -/
  | unavailable (specialist : Specialist)

/-- What is said about a failure. -/
def Failure.message : Failure → String
  | parse e => e.message
  | build e => e.message
  | analysis e => e.message
  | access e => e.message
  | json e => e.message
  | chart e => e.message
  | service message => message
  | noKey =>
      "Se requiere API key de Anthropic. "
        ++ "Provéela como argumento o en variable de entorno ANTHROPIC_API_KEY"
  | noDraftingKey => "Se requiere ANTHROPIC_API_KEY"
  | unknownTool name => "Tool desconocida: " ++ name
  | noJson => "No se encontró JSON en la respuesta"
  | emptyReply => "list index out of range"
  | unavailable .recursive => "RecursiveAgent no está disponible"
  | unavailable .iterative => "IterativeAgent no está disponible"

/-- A dialogue that may fail. -/
abbrev Session := ExceptT Failure Dialogue

namespace Session

/-- A session with its failure as a result. -/
def attempt {α : Type} (t : Session α) : Session (Except Failure α) := ExceptT.lift t.run

/-- A result that needs no dialogue. -/
def ofExcept {α : Type} (r : Except Failure α) : Session α := ExceptT.mk (pure r)

/-- What data hold, or why they cannot be read. -/
def ofData {α : Type} (r : Except AccessError α) : Session α := ofExcept (r.mapError .access)

/-- Prints a line. -/
def sayLine (s : String) : Session Unit := ExceptT.lift (Dialogue.say (s ++ "\n"))

/-- The model's reply to a request. -/
def reply (r : Request) : Session Reply := do
  ofExcept ((← ExceptT.lift (Dialogue.reply r)).mapError .service)

/-- The cache's answer to a query. -/
def lookup (q : Query) : Session Value := do
  ofExcept ((← ExceptT.lift (Dialogue.lookup q)).mapError .service)

/-- Fails with `missing` if there is no key to the model. -/
def requireKey (missing : Failure) : Session Unit := do
  if ← ExceptT.lift Dialogue.hasKey then return () else throw missing

end Session

end Ordo
