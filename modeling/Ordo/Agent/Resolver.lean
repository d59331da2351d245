import Ordo.Agent.Answer
import Ordo.Agent.Conversation
import Ordo.Agent.Prompt.Resolution
import Ordo.Resolution

namespace Ordo

/-!
# Resolution by the model

The model is asked for the bounds of each equation of an extraction.

* `Complexity.unknown` — the bounds when there is no answer;
* `Resolver.resolve` — the bounds of one equation;
* `Resolver.resolveAll` — the bounds of all cases of an extraction.
-/

/-- Bounds that are not known, and why. -/
def Complexity.unknown (steps : List String) (explanation : String) : Complexity :=
  ⟨"O(?)", "Ω(?)", none, false, "error", steps, explanation⟩

namespace Resolver

/-- The bounds in answered data. -/
def ofData (data : Value) : Except AccessError Complexity := do
  return {
    upper := (← data.entryOr "O" (.str "O(?)")).asText
    lower := (← data.entryOr "Omega" (.str "Ω(?)")).asText
    tight := (← data.entryOr "Theta" .none).asText?
    isTight := (← data.entryOr "is_tight_bound" (.bool false)).asBool
    method := (← data.entryOr "method" (.str "unknown")).asText
    steps := (← data.entryOr "steps" (.list [])).items.map Value.asText
    explanation := (← data.entryOr "explanation" (.str "")).asText }

/-- The bounds in an answer, which holds them as JSON. -/
def readAnswer (text : String) : Except Failure Complexity :=
  match Answer.braced? text.toList with
  | some found => do
      let data ← (Json.read (String.ofList found)).mapError Failure.json
      (ofData data).mapError Failure.access
  | none => .error .noJson

/-- The most turns of a conversation. -/
def turnLimit : Limit := 4

/-- The bounds of the equation of a case; unknown ones if the model gives none. -/
def resolve (equation kind : String) : Session Complexity := do
  let ending ← Agent.resolver.converse (.str (Prompt.resolution equation kind)) turnLimit
  match ending.result with
  | .error e => return .unknown ["No se pudo resolver la ecuación"] ("Error: " ++ e)
  | .ok text =>
      match readAnswer text with
      | .ok c => return c
      | .error f => do
          Session.sayLine (" Error parseando resultado: " ++ f.message)
          return .unknown [] ("Error parseando: " ++ f.message)

/-- The bounds of the equation of a case, asked for by a new agent. -/
def resolveFunction (kind : CaseKind) (function : String) : Session CaseResolution := do
  Session.requireKey .noKey
  return ⟨kind, function, ← resolve function kind.name⟩

/-- The bounds of a case, if there is such a case. -/
def resolveCase? (kind : CaseKind) : Option ExtractedCase → Session (Option CaseResolution)
  | some c => do return some (← resolveFunction kind c.function)
  | none => return none

/-- The bounds of the cases of an extraction: of each one, or of the unified one. -/
def resolveAll (x : Extraction) : Session Resolution := do
  if x.hasDifferentCases then
    let best ← resolveCase? .best x.best
    let worst ← resolveCase? .worst x.worst
    let average ← resolveCase? .average x.average
    return ⟨x.name, x.form.name, true, best, worst, average, none⟩
  else
    Session.requireKey .noKey
    match x.unified with
    | some u =>
        let unified ← resolveFunction .unified u.function
        return ⟨x.name, x.form.name, false, none, none, none, some unified⟩
    | none => throw (.access (.noAttribute "NoneType" "function"))

end Resolver

end Ordo
