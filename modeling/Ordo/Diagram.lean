import Ordo.Failure

namespace Ordo

/-!
# Diagrams of texts

* `sourceText`, `programOfText` — the text in data, and the program that a text stands for;
* `Diagram.subject`, `Diagram.ofProgram` — what of a program is drawn, and its drawing;
* `Diagram.draw` — the drawing of a text or program, with a drawing for when there is none.
-/

/-- The text to parse in data.  What is no text is asked for its size, and then for its
    characters, so something empty is as good as an empty text. -/
def sourceText (v : Value) : Except AccessError String :=
  match v.text?, v.sizeFault? with
  | some text, _ => .ok text
  | none, some e => .error e
  | none, none => if v.isTrue then .error (.notSearchable v.className) else .ok ""

/-- The program that a text stands for. -/
def programOfText (text : String) : Except Failure Value := do
  let tree ← (parse text).mapError Failure.parse
  tree.build.mapError Failure.build

namespace Diagram

/-- What of a program is drawn: the last subroutine, or the main algorithm if there is none. -/
def subject (program : Value) : Except AccessError Value := do
  let algorithm ← program.part "algorithm"
  let subroutines ← algorithm.part "subroutines"
  if subroutines.isTrue then return subroutines.items.getLastD .none
  else algorithm.part "main"

/-- The drawing of a program. -/
def ofProgram (program : Value) : Except Failure String := do
  let v ← (subject program).mapError Failure.access
  let chart ← (Flowchart.ofValue v).mapError fun u => Failure.chart u.error
  return chart.render

/-- The drawing of the program that a text stands for. -/
def ofText (text : String) : Except Failure String := do
  ofProgram (← programOfText text)

/-- The drawing of the program that is kept as a text. -/
def ofKept (kept : Value) : Except Failure String := do
  ofText (← (sourceText kept).mapError Failure.access)

/-- What is drawn when there is nothing to draw. -/
def fallback : String := "flowchart TD\n    ERROR[Error generando diagrama]"

/-- A drawing; in place of a failure, which is told of, the fixed one. -/
def orFallback : Except Failure String → Session String
  | .ok drawing => return drawing
  | .error f => do
      Session.sayLine (" Error generando Mermaid: " ++ f.message)
      return fallback

/-- The drawing of a program, or of the one that a text stands for. -/
def draw (text : String) (program : Option Value) : Session String :=
  match program with
  | some p => orFallback (ofProgram p)
  | none => orFallback (ofText text)

end Diagram

end Ordo
