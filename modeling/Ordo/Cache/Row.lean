import Ordo.Cache.Key
import Ordo.Json.Writer
import Ordo.Resolution

namespace Ordo.Cache

/-!
# Cache rows

An analysis is kept as one row: its text and key, the equation and explanation of each case,
and, once the equations are solved, the bounds of each case.  Extractions and resolutions are
read as records, so a row can be made of any record that has the fields.

* `Column` — a column with its value;
* `boundsOf`, `resolutionColumns` — the columns for bounds;
* `equationOf`, `analysisColumns` — the columns for equations;
* `row` — a whole row.
-/

/-- A column with its value. -/
abbrev Column := String × Value

/-- Whether a value can be written as JSON: no part of it is a record. -/
def checkPlain : Value → Except AccessError Unit
  | .dict _ => .error (.notSerializable "Record")
  | .list xs => checkItems xs
  | _ => .ok ()
where
  checkItems : List Value → Except AccessError Unit
    | [] => .ok ()
    | x :: xs => do
        checkPlain x
        checkItems xs

/-- The text of several fields as JSON. -/
def fieldsText (fields : List Column) : Except AccessError String := do
  checkPlain.checkItems (fields.map Prod.snd)
  return Json.write Json.escapedStyle (.dict fields)

/-- The columns for the bounds of one case, which start with `name`; the whole of it stands in
    `whole` as JSON. -/
def boundsOf (name whole : String) (case : Value) : Except AccessError (List Column) := do
  let bounds ← case.recordField "resolution"
  let upper ← bounds.recordField "O"
  let lower ← bounds.recordField "Omega"
  let tight ← bounds.recordField "Theta"
  let method ← bounds.recordField "method"
  let isTight ← bounds.recordField "is_tight_bound"
  let steps ← bounds.recordField "steps"
  let explanation ← bounds.recordField "explanation"
  let text ← fieldsText [("O", upper), ("Omega", lower), ("Theta", tight),
    ("is_tight_bound", isTight), ("method", method), ("steps", steps),
    ("explanation", explanation)]
  return [(name ++ "_O", upper), (name ++ "_Omega", lower), (name ++ "_Theta", tight),
    (name ++ "_method", method), (whole, .str text)]

/-- The columns of the named field of a record, if it is there. -/
def columnsIfPresent (record : Value) (name : String)
    (columns : Value → Except AccessError (List Column)) :
    Except AccessError (List Column) := do
  let v ← record.recordField name
  if v.isPresent then columns v else return []

/-- The columns for the bounds of a case in a resolution. -/
def resolvedCase (resolution : Value) (name whole : String) : Except AccessError (List Column) :=
  columnsIfPresent resolution name (boundsOf name whole)

/-- The columns for the bounds of a resolution. -/
def resolutionColumns (resolution : Value) : Except AccessError (List Column) := do
  if (← resolution.recordField "has_different_cases").isPresent then
    let best ← resolvedCase resolution "best_case" "best_case_resolved"
    let worst ← resolvedCase resolution "worst_case" "worst_case_resolved"
    let average ← resolvedCase resolution "average_case" "average_case_resolved"
    return best ++ worst ++ average
  else resolvedCase resolution "unified_case" "resolution_method"

/-- The columns for the equation of one case, which start with `name`. -/
def equationOf (name : String) (case : Value) : Except AccessError (List Column) := do
  let function ← case.recordField "function"
  let explanation ← case.recordField "explanation"
  return [(name ++ "_function", function), (name ++ "_explanation", explanation)]

/-- The columns for the equations of an extraction. -/
def analysisColumns (analysis : Value) : Except AccessError (List Column) := do
  if (← analysis.recordField "has_different_cases").isPresent then
    let best ← columnsIfPresent analysis "best_case" (equationOf "best_case")
    let worst ← columnsIfPresent analysis "worst_case" (equationOf "worst_case")
    let average ← columnsIfPresent analysis "average_case" (equationOf "average_case")
    return best ++ worst ++ average
  else columnsIfPresent analysis "unified_case" (equationOf "unified")

/-- What an analysis is taken to cost, in dollars. -/
def usualCost : Value := .float 0.008

/-- What is kept beside an analysis. -/
structure Context where
  pseudocode : String
  description : Value
  cost : Value

/-- The row for an analysis and, if there is one, its resolution. -/
def row (context : Context) (analysis : Value) (resolution : Option Value) :
    Except AccessError (List Column) := do
  let name ← analysis.recordField "algorithm_name"
  let type ← analysis.recordField "algorithm_type"
  let different ← analysis.recordField "has_different_cases"
  let equations ← analysisColumns analysis
  let bounds ← match resolution with
    | some r => resolutionColumns r
    | none => pure []
  return [("pseudocode_hash", .str (key context.pseudocode)),
    ("pseudocode", .str context.pseudocode), ("natural_description", context.description),
    ("algorithm_name", name), ("algorithm_type", type), ("has_different_cases", different),
    ("api_cost_usd", context.cost)] ++ equations ++ bounds

end Ordo.Cache
