import Ordo.Agent.Resolver
import Ordo.Cache.Restore
import Ordo.Cache.Row
import Ordo.Classification
import Ordo.Diagram
import Ordo.Study

namespace Ordo

/-!
# Assessments

Everything that is found out about a program: its syntax tree, the classes of its subroutines,
the equations of one of them, their bounds, and a drawing.  What was found out before is taken
from the cache; what is found out is kept there.  A cache that fails is told of and else
ignored.

* `Assessment` — what is found out;
* `Assessment.fromCache` — an assessment that was kept;
* `Assessment.subjectIndex` — which subroutine is studied;
* `Assessment.fresh` — an assessment from the start;
* `assess` — either.
-/

/-- What is found out about a program.  In an assessment from the cache the parts that are not
    kept say so. -/
structure Assessment where
  tree : Value
  outline : String
  classification : Value
  study : Option Study
  resolution : Value
  drawing : Value

namespace Assessment

/-! ### The cache -/

/-- The first row of an answer, if there is one.  Entries of a dictionary are not rows. -/
def firstRow (rows : Value) : Except AccessError (Option Value) :=
  match rows.isTrue, rows.sizeFault?, rows with
  | false, _, _ => .ok none
  | true, some e, _ => .error e
  | true, none, .dict _ => .error (.missingNumber 0)
  | true, none, v => do return (← v.iterate).head?

/-- The drawing of a row.  A row without one is given one. -/
def keptDrawing (row : Value) : Session Value := do
  let kept ← Session.ofData (row.entryOr "mermaid_diagram" .none)
  if kept.isNone then
    let text ← Session.ofData (row.entry "pseudocode")
    let drawing ← Diagram.orFallback (Diagram.ofKept text)
    let id ← Session.ofData (row.entry "id")
    match ← Session.attempt (Session.lookup (.update id [("mermaid_diagram", .str drawing)])) with
    | .ok _ => return .str drawing
    | .error f => do
        Session.sayLine (" Error actualizando Mermaid en caché: " ++ f.message)
        return .str drawing
  else return kept

/-- The assessment in a row, whose count of requests goes up. -/
def ofRow (row : Value) : Session Assessment := do
  let times ← Session.ofData (row.entry "times_requested")
  let more ← Session.ofData times.successor
  let id ← Session.ofData (row.entry "id")
  let _ ← Session.lookup (.update id [("times_requested", more)])
  let drawing ← keptDrawing row
  let extraction ← Session.ofData (Cache.extraction row)
  let resolution ← Session.ofData (Cache.resolution row)
  let name ← Session.ofData (row.entry "algorithm_name")
  return {
    tree := .dict [("from_cache", .bool true), ("algorithm_name", name)]
    outline := "[Desde caché]"
    classification := .dict [("from_cache", .bool true)]
    study := some (.extracted extraction)
    resolution := resolution
    drawing := drawing }

/-- The assessment of a text in the cache, if there is one. -/
def kept (pseudocode : String) : Session (Option Assessment) := do
  let rows ← Session.lookup (.find (Cache.key pseudocode))
  match ← Session.ofData (firstRow rows) with
  | some row => some <$> ofRow row
  | none => return none

/-- The assessment of a text in the cache.  If the cache fails, there is none. -/
def fromCache (pseudocode : String) : Session (Option Assessment) := do
  match ← Session.attempt (kept pseudocode) with
  | .ok a => return a
  | .error f => do
      Session.sayLine (" Error en caché (continuando sin caché): " ++ f.message)
      return none

/-! ### From the start -/

/-- Which subroutine is studied: the first recursive one, else the last. -/
def subjectIndex (types : List AlgorithmType) : Nat :=
  (types.findIdx? (· == .recursive)).getD (types.length - 1)

/-- Shows the bound of a case. -/
def sayBound (label : String) : Option CaseResolution → Session Unit
  | some c => Session.sayLine ("  " ++ label ++ " case: " ++ c.complexity.shown)
  | none => return ()

/-- Shows the bounds of all cases. -/
def sayBounds (r : Resolution) : Session Unit := do
  if r.hasDifferentCases then
    sayBound "Best" r.best
    sayBound "Worst" r.worst
    sayBound "Average" r.average
  else sayBound "Unified" r.unified

/-- The bounds of an extraction, if they can be had. -/
def resolved (x : Extraction) : Session (Option Resolution) := do
  let attempt ← Session.attempt do
    Session.requireKey .noKey
    let r ← Resolver.resolveAll x
    sayBounds r
    return r
  match attempt with
  | .ok r => return some r
  | .error f => do
      Session.sayLine ("\nError en Fase 2: " ++ f.message)
      return none

/-- Keeps an assessment in the cache, if that can be done. -/
def keep (context : Cache.Context) (x : Extraction) (resolution : Option Resolution)
    (drawing : String) : Session Unit := do
  let attempt ← Session.attempt do
    let row ← Session.ofData
      (Cache.row context x.toRecord (resolution.map Resolution.toRecord))
    Session.lookup (.insert (row ++ [("mermaid_diagram", .str drawing)]))
  match attempt with
  | .ok _ => return ()
  | .error f => Session.sayLine ("\nError guardando en caché: " ++ f.message)

/-- The subroutines of a program. -/
def subroutinesOf : Value → List Value
  | .node .program [_, .node .algorithm [.list subroutines, _]] => subroutines
  | _ => []

/-- The classes of the subroutines of a program. -/
def classified (program : Value) : Except Failure Classification := do
  let p ← (Program.read program).mapError Failure.access
  p.classify.mapError Failure.analysis

/-- What is found out about one subroutine of a program. -/
structure Findings where
  study : Study
  resolution : Option Resolution
  drawing : String

/-- What is found out about a subroutine; what the model finds is kept in the cache. -/
def examine (context : Cache.Context) (program subroutine : Value) (type : AlgorithmType) :
    Session Findings := do
  let name ← Session.ofData (subroutine.part "name")
  let study ← Study.conduct true subroutine.serialize type.name name.asText
  let resolution ← match study with
    | .extracted x => resolved x
    | .failed _ _ => pure none
  let drawing ← Diagram.draw context.pseudocode (some program)
  match study with
  | .extracted x => keep context x resolution drawing
  | .failed _ _ => pure ()
  return ⟨study, resolution, drawing⟩

/-- The assessment of a text from the start. -/
def fresh (context : Cache.Context) : Session Assessment := do
  let tree ← Session.ofExcept ((parse context.pseudocode).mapError .parse)
  let program ← Session.ofExcept (tree.build.mapError .build)
  let classification ← Session.ofExcept (classified program)
  let types := classification.subroutines.map SubroutineClass.type
  let index := subjectIndex types
  let findings ← match (subroutinesOf program)[index]?, types[index]? with
    | some s, some type => some <$> examine context program s type
    | _, _ => pure none
  return {
    tree := program.serialize
    outline := tree.pretty
    classification := classification.toValue
    study := findings.map Findings.study
    resolution := Value.ofOption Resolution.toRecord (findings.bind Findings.resolution)
    drawing := Value.ofText? (findings.map Findings.drawing) }

end Assessment

/-- The assessment of a text, from the cache or from the start. -/
def assess (pseudocode : String) (description : Option String) : Session Assessment := do
  match ← Assessment.fromCache pseudocode with
  | some a => return a
  | none => Assessment.fresh ⟨pseudocode, Value.ofText? description, Cache.usualCost⟩

end Ordo
