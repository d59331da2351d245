import Ordo.Value.Access

namespace Ordo

/-!
# Extractions

What is read off an algorithm before anything is solved: an equation for the best, worst and
average case, or a single one if they agree.

* `CaseKind`, `ExtractedCase`, `UnifiedCase` — cases with their equations;
* `AlgorithmForm` — what else is known of a recursive or an iterative algorithm;
* `Extraction`, `Extraction.toRecord` — an extraction, and as data;
* `Extraction.ofData` — the extraction in the data that a language model answers.
-/

/-- The kinds of case. -/
inductive CaseKind
  | best | worst | average | unified
  deriving DecidableEq, Repr

/-- The name of a kind. -/
def CaseKind.name : CaseKind → String
  | best => "best" | worst => "worst" | average => "average" | unified => "unified"

/-- One case with its equation. -/
structure ExtractedCase where
  kind : CaseKind
  condition : String
  /-- Whether the case exists for the algorithm. -/
  real : Bool
  function : String
  explanation : String
  deriving DecidableEq, Repr

/-- The equation of all cases together. -/
structure UnifiedCase where
  function : String
  appliesTo : List String
  explanation : String
  deriving DecidableEq, Repr

/-- A loop with its bounds. -/
structure LoopBounds where
  loopType : String
  counter : String
  start : String
  stop : String
  level : Int
  deriving DecidableEq, Repr

/-- What is known of a recursive or an iterative algorithm. -/
inductive AlgorithmForm
  | recursive (calls : Int) (baseCase : String)
  | iterative (loops : List LoopBounds) (nesting : Int)
  deriving DecidableEq, Repr

/-- The name of the type of an algorithm. -/
def AlgorithmForm.name : AlgorithmForm → String
  | recursive _ _ => "RECURSIVE"
  | iterative _ _ => "ITERATIVE"

/-- An extraction. -/
structure Extraction where
  name : String
  form : AlgorithmForm
  hasDifferentCases : Bool
  unified : Option UnifiedCase
  best : Option ExtractedCase
  worst : Option ExtractedCase
  average : Option ExtractedCase
  deriving DecidableEq, Repr

/-! ### Data -/

/-- Something that may be absent, as data. -/
def Value.ofOption {α : Type} (f : α → Value) : Option α → Value
  | some a => f a
  | Option.none => .none

/-- A case as data. -/
def ExtractedCase.toRecord (c : ExtractedCase) : Value :=
  .dict [("case_type", .str c.kind.name), ("condition", .str c.condition),
    ("exists", .bool c.real), ("function", .str c.function),
    ("explanation", .str c.explanation)]

/-- A unified case as data. -/
def UnifiedCase.toRecord (c : UnifiedCase) : Value :=
  .dict [("function", .str c.function), ("applies_to", .list (c.appliesTo.map .str)),
    ("explanation", .str c.explanation)]

/-- A loop as data. -/
def LoopBounds.toRecord (l : LoopBounds) : Value :=
  .dict [("loop_type", .str l.loopType), ("variable", .str l.counter),
    ("bound_start", .str l.start), ("bound_end", .str l.stop), ("nesting_level", .int l.level)]

/-- The fields that only one type of algorithm has. -/
def AlgorithmForm.fields : AlgorithmForm → List (String × Value)
  | recursive calls baseCase =>
      [("recursive_calls_count", .int calls), ("base_case_condition", .str baseCase)]
  | iterative loops nesting =>
      [("loops", .list (loops.map LoopBounds.toRecord)), ("max_nesting", .int nesting)]

/-- An extraction as data. -/
def Extraction.toRecord (x : Extraction) : Value :=
  .dict ([("algorithm_name", .str x.name), ("algorithm_type", .str x.form.name)]
    ++ x.form.fields
    ++ [("has_different_cases", .bool x.hasDifferentCases),
      ("unified_case", .ofOption UnifiedCase.toRecord x.unified),
      ("best_case", .ofOption ExtractedCase.toRecord x.best),
      ("worst_case", .ofOption ExtractedCase.toRecord x.worst),
      ("average_case", .ofOption ExtractedCase.toRecord x.average)])

/-! ### Reading -/

namespace Extraction

/-- The three cases, in the order in which they are named. -/
def allCases : List String := ["best", "worst", "average"]

/-- A case in answered data. -/
def readCase (kind : CaseKind) (function : String) (data : Value) :
    Except AccessError ExtractedCase := do
  return {
    kind := kind
    condition := (← data.entryOr "condition" (.str "unknown")).asText
    real := (← data.entryOr "exists" (.bool true)).asBool
    function := function
    explanation := (← data.entryOr "description" (.str "")).asText }

/-- A loop in answered data. -/
def readLoop (data : Value) : Except AccessError LoopBounds := do
  return {
    loopType := (← data.entryOr "type" (.str "FOR")).asText
    counter := (← data.entryOr "variable" (.str "i")).asText
    start := (← data.entryOr "start" (.str "1")).asText
    stop := (← data.entryOr "end" (.str "n")).asText
    level := (← data.entryOr "nesting_level" (.int 0)).asInt }

/-- What answered data tell of a recursive algorithm. -/
def readRecursive (data : Value) : Except AccessError AlgorithmForm := do
  return .recursive (← data.entryOr "recursive_calls_count" (.int 1)).asInt
    (← data.entryOr "base_case_condition" (.str "unknown")).asText

/-- What answered data tell of an iterative algorithm. -/
def readIterative (data : Value) : Except AccessError AlgorithmForm := do
  let loops ← (← (← data.entryOr "loops" (.list [])).iterate).mapM readLoop
  return .iterative loops (← data.entryOr "max_nesting" (.int loops.length)).asInt

/-- The equations of the best, worst and average case in answered data.  An average case that
    is absent counts as the worst; one may also be given without an equation. -/
structure Functions where
  best : String
  worst : String
  average : Option String
  deriving DecidableEq, Repr

/-- Whether there is one equation for all cases. -/
def Functions.agree (f : Functions) : Bool :=
  f.best == f.worst && some f.worst == f.average && f.best != ""

/-- An explanation for when none is answered. -/
def agreement : String :=
  "Los 3 casos son idénticos - el algoritmo siempre ejecuta la misma cantidad de trabajo"

/-- The equation in a case of answered data; a case without an entry for it has the empty
    one. -/
def readFunction (data : Value) : Except AccessError (Option String) := do
  match ← data.entryOr "function" (.str "") with
  | .str s => return some s
  | _ => return none

/-- The cases in answered data: best and worst have to be there, the average may lack. -/
structure Cases where
  best : Value
  worst : Value
  average : Value

/-- The cases in answered data. -/
def readCases (data : Value) : Except AccessError Cases := do
  return {
    best := ← data.entryOr "best_case" (.dict [])
    worst := ← data.entryOr "worst_case" (.dict [])
    average := ← data.entryOr "average_case" .none }

/-- The equations of cases. -/
def Cases.functions (c : Cases) : Except AccessError Functions := do
  let best := (← readFunction c.best).getD ""
  let worst := (← readFunction c.worst).getD ""
  let average ← if c.average.isTrue then readFunction c.average else pure (some worst)
  return ⟨best, worst, average⟩

/-- The average case, if it is given with an equation. -/
def Cases.averageCase (c : Cases) (function : Option String) :
    Except AccessError (Option ExtractedCase) := do
  match function with
  | some f =>
      if c.average.isTrue && f != "" then
        return some (← readCase .average f c.average)
      else return none
  | none => return none

/-- The extraction in answered data, for an algorithm whose form `readForm` reads. -/
def ofData (readForm : Value → Except AccessError AlgorithmForm) (name : String)
    (data : Value) : Except AccessError Extraction := do
  let cases ← readCases data
  let f ← cases.functions
  let form ← readForm data
  if f.agree then
    let explanation := (← cases.best.entryOr "description" (.str agreement)).asText
    return ⟨name, form, false, some ⟨f.best, allCases, explanation⟩, none, none, none⟩
  else
    let best ← readCase .best f.best cases.best
    let worst ← readCase .worst f.worst cases.worst
    let average ← cases.averageCase f.average
    return ⟨name, form, true, none, some best, some worst, average⟩

end Extraction

end Ordo
