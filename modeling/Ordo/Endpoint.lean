import Ordo.Agent.Drafter
import Ordo.Assessment

namespace Ordo

/-!
# Endpoints

What the service answers to those who ask it.

* `Response` — a result, or a status with a detail;
* `Endpoint.analyze`, `Endpoint.draftAndAnalyze`, `Endpoint.listKept`, `Endpoint.validate`,
  `Endpoint.examples`, `Endpoint.status` — the endpoints.
-/

/-- What is said with a status. -/
inductive Detail
  | text (message : String)
  /-- Why there is no program, with the last draft and its mistake. -/
  | drafting (error : String) (last : Option (String × SyntaxError))

/-- A result, or a status with a detail. -/
inductive Response (α : Type)
  | ok (result : α)
  | refused (status : Nat) (detail : Detail)

/-- A program drafted from a description, with its assessment. -/
structure DraftAssessment where
  pseudocode : String
  attempts : Nat
  assessment : Assessment

/-- What the cache holds. -/
structure Listing where
  total : Nat
  rows : Value

namespace Endpoint

/-- The assessment of a text. -/
def analyze (text : String) : Dialogue (Response Assessment) := do
  match ← (assess text none).run with
  | .ok a => return .ok a
  | .error f =>
      return .refused 400 (.text ("Error construyendo AST y analizando: " ++ f.message))

/-- A program that does what is described, and its assessment. -/
def draftAndAnalyze (description : String) : Dialogue (Response DraftAssessment) := do
  let outcome ← ExceptT.run (m := Dialogue) do
    Session.requireKey .noDraftingKey
    match ← Draft.compose description Draft.usualLimit with
    | .accepted pseudocode attempts => do
        let a ← assess pseudocode (some description)
        return Response.ok (⟨pseudocode, attempts, a⟩ : DraftAssessment)
    | .rejected limit last => return .refused 400 (.drafting (Drafting.rejection limit) last)
    | .failed f => return .refused 400 (.drafting (Draft.failureText f) none)
  match outcome with
  | .ok r => return r
  | .error f => return .refused 500 (.text ("Error en traducción o análisis: " ++ f.message))

/-- How many rows there are. -/
def countRows (rows : Value) : Except AccessError Nat := Value.unlessFault rows.sizeFault? rows.size

/-- Everything that the cache holds. -/
def listKept : Dialogue (Response Listing) := do
  let refused (message : String) : Response Listing :=
    .refused 500 (.text ("Error obteniendo algoritmos: " ++ message))
  match ← Dialogue.lookup .all with
  | .ok rows =>
      match countRows rows with
      | .ok n => return .ok ⟨n, rows⟩
      | .error e => return refused e.message
  | .error e => return refused e

/-- Whether a text can be parsed. -/
def validate (text : String) : Bool :=
  match parse text with
  | .ok _ => true
  | .error _ => false

/-- The names of sample programs. -/
def examples : Value :=
  .dict [("iteratives", .list [.str "sumatoria.txt", .str "burbuja.txt"]),
    ("recursive", .list [.str "factorial.txt", .str "mergesort.txt"])]

/-- Says that the service is up. -/
def status : Value := .dict [("status", .str "ok")]

end Endpoint

end Ordo
