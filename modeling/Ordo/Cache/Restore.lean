import Ordo.Json.Reader
import Ordo.Resolution

namespace Ordo.Cache

/-!
# Answers from the cache

An extraction and a resolution, rebuilt from the row in which they are kept.

* `extraction` — the extraction of a row;
* `resolution` — the resolution of a row as data, or nothing if the row has no bounds.
-/

/-- The text of a column, which has to be there; an absent value is the empty text. -/
def textColumn (row : Value) (name : String) : Except AccessError String := do
  return ((← row.entry name).orElse (.str "")).asText

/-- A case of a row; its condition is not kept. -/
def restoredCase (row : Value) (kind : CaseKind) (name : String) :
    Except AccessError ExtractedCase := do
  return {
    kind := kind
    condition := "unknown"
    real := true
    function := ← textColumn row (name ++ "_function")
    explanation := ← textColumn row (name ++ "_explanation") }

/-- The form of an algorithm, of which only the type is kept. -/
def restoredForm (type : Value) : AlgorithmForm :=
  match type with
  | .str "RECURSIVE" => .recursive 1 "unknown"
  | _ => .iterative [] 0

/-- The extraction of a row. -/
def extraction (row : Value) : Except AccessError Extraction := do
  let form := restoredForm (← row.entry "algorithm_type")
  if (← row.entry "has_different_cases").isTrue then
    let best ← restoredCase row .best "best_case"
    let worst ← restoredCase row .worst "worst_case"
    let average ←
      if (← row.entryOr "average_case_function" .none).isTrue then
        some <$> restoredCase row .average "average_case"
      else pure none
    return ⟨(← row.entry "algorithm_name").asText, form, true, none, some best, some worst,
      average⟩
  else
    let function ← textColumn row "unified_function"
    let explanation ← textColumn row "unified_explanation"
    return ⟨(← row.entry "algorithm_name").asText, form, false,
      some ⟨function, Extraction.allCases, explanation⟩, none, none, none⟩

/-- The fields in a column of JSON text; none if there is no such text. -/
def wholeOf : Value → Value
  | .str s => if s.isEmpty then .dict [] else match Json.read s with
      | .ok v => v
      | .error _ => .dict []
  | _ => .dict []

/-- The columns of a case: its equation, its bounds, and where the whole of it stands. -/
structure CaseColumns where
  kind : CaseKind
  function : String
  bounds : String
  whole : String

/-- The entry of a resolution for a case, if the row has bounds for it. -/
def restoredBounds (row : Value) (c : CaseColumns) :
    Except AccessError (List (String × Value)) := do
  if (← row.entryOr (c.bounds ++ "_O") .none).isTrue then
    let whole := wholeOf (← row.entryOr c.whole .none)
    let equation ← row.entryOr c.function (.str "")
    let upper ← row.entry (c.bounds ++ "_O")
    let lower ← row.entry (c.bounds ++ "_Omega")
    let tight ← row.entry (c.bounds ++ "_Theta")
    let method ← row.entry (c.bounds ++ "_method")
    let steps ← whole.entryOr "steps" (.list [])
    let explanation ← whole.entryOr "explanation" (.str "")
    return [(c.bounds, .dict [("case_type", .str c.kind.name), ("original_equation", equation),
      ("resolution", .dict [("O", upper), ("Omega", lower), ("Theta", tight),
        ("is_tight_bound", .bool (!tight.isNone)), ("method", method), ("steps", steps),
        ("explanation", explanation)])])]
  else return []

/-- The columns of the best case. -/
def bestColumns : CaseColumns :=
  ⟨.best, "best_case_function", "best_case", "best_case_resolved"⟩

/-- The columns of the worst case. -/
def worstColumns : CaseColumns :=
  ⟨.worst, "worst_case_function", "worst_case", "worst_case_resolved"⟩

/-- The columns of the average case. -/
def averageColumns : CaseColumns :=
  ⟨.average, "average_case_function", "average_case", "average_case_resolved"⟩

/-- The columns of the unified case. -/
def unifiedColumns : CaseColumns :=
  ⟨.unified, "unified_function", "unified_case", "resolution_method"⟩

/-- Whether a row has bounds. -/
def hasBounds (row : Value) : Except AccessError Bool := do
  let unified ← row.entryOr "unified_case_O" .none
  let best ← row.entryOr "best_case_O" .none
  let worst ← row.entryOr "worst_case_O" .none
  return unified.isTrue || best.isTrue || worst.isTrue

/-- The resolution of a row as data. -/
def resolution (row : Value) : Except AccessError Value := do
  if ← hasBounds row then
    let different ← row.entry "has_different_cases"
    let name ← row.entry "algorithm_name"
    let type ← row.entry "algorithm_type"
    let cases ←
      if different.isTrue then do
        let best ← restoredBounds row bestColumns
        let worst ← restoredBounds row worstColumns
        let average ← restoredBounds row averageColumns
        pure (best ++ worst ++ average)
      else restoredBounds row unifiedColumns
    return .dict ([("has_different_cases", different), ("algorithm_name", name),
      ("algorithm_type", type)] ++ cases)
  else return .none

end Ordo.Cache
