import Ordo.Agent.Extractor
import Ordo.Extraction
import Ordo.Text.Upper

namespace Ordo

/-!
# Studies

A classified subroutine is given to the specialist for its type, and the answer is read as an
extraction.

* `Study` — an extraction, or why there is none;
* `Study.conduct` — the study of a subroutine.
-/

/-- What comes of studying a subroutine. -/
inductive Study
  | extracted (x : Extraction)
  | failed (error type : String)

/-- Why there is no extraction, as data. -/
def Study.failureRecord (error type : String) : Value :=
  .dict [("error", .str error), ("algorithm_type", .str type)]

/-- What is printed where the specialists are not installed. -/
def Specialist.absence : String := "Warning: No se pudieron importar los agentes\n"

/-- What is read of an algorithm's form. -/
def Specialist.readForm : Specialist → Value → Except AccessError AlgorithmForm
  | recursive => Extraction.readRecursive
  | iterative => Extraction.readIterative

/-- The type of algorithm that a specialist is for. -/
def Specialist.type : Specialist → String
  | recursive => "RECURSIVE"
  | iterative => "ITERATIVE"

/-- Says that all cases of a recursive algorithm agree. -/
def Specialist.announce (s : Specialist) (x : Extraction) : Session Unit :=
  match s, x.unified with
  | .recursive, some _ =>
      Session.sayLine ("Detección: " ++ x.name ++ " tiene casos IGUALES - usando unified_case")
  | _, _ => return ()

/-- The study of a subroutine by a specialist, who may not be installed. -/
def Specialist.study (s : Specialist) (installed : Bool) (subject : Value) (name : String) :
    Session Study := do
  if !installed then throw (.unavailable s)
  Session.requireKey .noKey
  let finding ← s.examine subject name
  match finding.result with
  | .error e => return .failed e s.type
  | .ok data => do
      let x ← Session.ofData (Extraction.ofData s.readForm name data)
      s.announce x
      return .extracted x

/-- The specialist for a class of algorithms; else what is said about the class. -/
def specialistFor (classification : String) : Except String Specialist :=
  if classification = "RECURSIVE" then .ok .recursive
  else if classification = "ITERATIVE" then .ok .iterative
  else if classification = "HYBRID" ∨ classification = "SIMPLE" then
    .error ("Tipo de algoritmo no soportado aún: " ++ classification
      ++ ". Solo se soportan RECURSIVE e ITERATIVE por ahora.")
  else .error ("Clasificación desconocida: " ++ classification)

/-- The study of a classified subroutine.  The case of letters in the classification does not
    matter.  A failure of the specialist is what comes of the study. -/
def Study.conduct (installed : Bool) (subject : Value) (classification name : String) :
    Session Study := do
  let type := String.ofList (Text.upper classification.toList)
  match specialistFor type with
  | .error e => return .failed e type
  | .ok s =>
      match ← Session.attempt (s.study installed subject name) with
      | .ok result => return result
      | .error f => return .failed ("Error durante el análisis: " ++ f.message) type

end Ordo
