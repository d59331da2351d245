import Ordo.Extraction

namespace Ordo

/-!
# Resolutions

The equations of an extraction, solved.

* `Complexity` — bounds with the method, steps and explanation that lead to them;
* `CaseResolution`, `Resolution` — one case and all cases of an algorithm;
* `Resolution.toRecord` — a resolution as data.
-/

/-- Bounds of a running time. -/
structure Complexity where
  /-- The upper bound. -/
  upper : String
  /-- The lower bound. -/
  lower : String
  /-- The bound from both sides, if there is one. -/
  tight : Option String
  isTight : Bool
  method : String
  steps : List String
  explanation : String
  deriving DecidableEq, Repr

/-- The bounds of one case. -/
structure CaseResolution where
  kind : CaseKind
  equation : String
  complexity : Complexity
  deriving DecidableEq, Repr

/-- The bounds of all cases of an algorithm. -/
structure Resolution where
  name : String
  type : String
  hasDifferentCases : Bool
  best : Option CaseResolution
  worst : Option CaseResolution
  average : Option CaseResolution
  unified : Option CaseResolution
  deriving DecidableEq, Repr

/-- Bounds as data. -/
def Complexity.toRecord (c : Complexity) : Value :=
  .dict [("O", .str c.upper), ("Omega", .str c.lower), ("Theta", Value.ofText? c.tight),
    ("is_tight_bound", .bool c.isTight), ("method", .str c.method),
    ("steps", .list (c.steps.map .str)), ("explanation", .str c.explanation)]

/-- The bounds of a case as data. -/
def CaseResolution.toRecord (c : CaseResolution) : Value :=
  .dict [("case_type", .str c.kind.name), ("original_equation", .str c.equation),
    ("resolution", c.complexity.toRecord)]

/-- The bounds of an algorithm as data. -/
def Resolution.toRecord (r : Resolution) : Value :=
  .dict [("algorithm_name", .str r.name), ("algorithm_type", .str r.type),
    ("has_different_cases", .bool r.hasDifferentCases),
    ("best_case", .ofOption CaseResolution.toRecord r.best),
    ("worst_case", .ofOption CaseResolution.toRecord r.worst),
    ("average_case", .ofOption CaseResolution.toRecord r.average),
    ("unified_case", .ofOption CaseResolution.toRecord r.unified)]

/-- The bound that is shown for a case: the one from both sides if there is any. -/
def Complexity.shown (c : Complexity) : String :=
  match c.tight with
  | some t => if t.isEmpty then c.upper else t
  | none => c.upper

end Ordo
