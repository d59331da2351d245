import Ordo.Proofs.ParseTrees
import Ordo.Proofs.Subjects

namespace Ordo

/-!
# Drawings of texts

Whatever a text is, a drawing of it is given.  It is the chart of the last subroutine, or a fixed
one if there is no such chart.

* `Diagram.exists_ofProgram_error`, `Diagram.exists_ofProgram_eq` — the drawing of a program;
* `Diagram.FallsBack` — which texts have no chart of their own;
* `Diagram.draw_falls_back_iff` — the drawing of a text.
-/

/-! ### Drawings of programs -/

namespace Diagram

/-- A program without subroutines has no drawing, since its main part is no subroutine. -/
theorem exists_ofProgram_error {program : Value} (h : program.IsProgram)
    (hnone : program.subroutineNodes = []) : ∃ f, ofProgram program = .error f := by
  obtain ⟨classes, _, rfl, subroutines, _, rfl, -, declarations, body, rfl, -⟩ := h
  obtain rfl : subroutines = [] := hnone
  exact ⟨_, rfl⟩

/-- The drawing of a program is the chart of its last subroutine. -/
theorem exists_ofProgram_eq {program s : Value} (h : program.IsProgram)
    (hs : program.subroutineNodes.getLast? = some s) :
    ∃ chart, Flowchart.ofValue s = .ok chart ∧ ofProgram program = .ok chart.render := by
  have hnodes : program.subroutineNodes = Assessment.subroutinesOf program := by
    obtain ⟨classes, _, rfl, subroutines, _, rfl, -⟩ := h
    rfl
  rw [hnodes] at hs
  have hne : Assessment.subroutinesOf program ≠ [] := List.ne_nil_of_mem (List.mem_of_getLast? hs)
  rw [List.getLast?_eq_some_getLast hne] at hs
  obtain rfl := Option.some.inj hs
  obtain ⟨title, t, -, hchart⟩ := (Assessment.isSubroutine_of_mem_subroutinesOf h
    (List.getLast_mem hne)).isDrawableSubroutine.exists_ofValue_eq
  refine ⟨_, hchart, ?_⟩
  rw [ofProgram, subject_of_isProgram h hne]
  show ((Flowchart.ofValue _).mapError _ >>= fun chart => pure chart.render) = _
  rw [hchart]
  rfl

/-! ### Drawings of texts -/

/-- A text has no drawing of its own: the parser rejects it, one of its whole numbers has more than
    4300 digits, or its program has no subroutine. -/
def FallsBack (text : String) : Prop :=
  (∃ e, parse text = .error e) ∨
  (∃ tree t, parse text = .ok tree ∧ tree.HasLong t) ∨
  ∃ program, programOfText text = .ok program ∧ program.subroutineNodes = []

variable {text : String}

/-- A text that is accepted and has no long number stands for a program. -/
theorem exists_programOfText_of_not_fallsBack (h : ¬ FallsBack text) :
    ∃ program s, programOfText text = .ok program ∧
      program.subroutineNodes.getLast? = some s := by
  simp only [FallsBack, not_or, not_exists, not_and] at h
  obtain ⟨hparse, hlong, hempty⟩ := h
  cases htree : parse text with
  | error e => exact absurd htree (hparse e)
  | ok tree =>
    obtain ⟨classes, subroutines, declarations, body, hbuild⟩ :=
      (parse_build_total htree).2.2 fun t => hlong tree t htree
    have hprogram : programOfText text = .ok _ :=
      bind_eq_ok_iff.mpr ⟨tree, mapError_eq_ok_iff.mpr htree, mapError_eq_ok_iff.mpr hbuild⟩
    exact ⟨_, _, hprogram, List.getLast?_eq_some_getLast (hempty _ hprogram)⟩

/-- A text that falls back has no drawing. -/
theorem exists_ofText_error (h : FallsBack text) : ∃ f, ofText text = .error f := by
  rcases h with ⟨e, hparse⟩ | ⟨tree, t, hparse, hlong⟩ | ⟨program, hprogram, hnone⟩
  · exact ⟨.parse e, by simp only [ofText, programOfText, hparse]; rfl⟩
  · obtain ⟨f, hf⟩ := (parse_build_total hparse).1.mpr ⟨t, hlong⟩
    refine ⟨.build f, ?_⟩
    have hprogram : programOfText text = .error (.build f) := by
      show ((parse text).mapError Failure.parse >>= fun tree => _) = _
      rw [hparse]
      show tree.build.mapError Failure.build = _
      rw [hf]
      rfl
    rw [ofText, hprogram]
    rfl
  · obtain ⟨f, hf⟩ := exists_ofProgram_error (programOfText_isProgram hprogram) hnone
    refine ⟨f, ?_⟩
    rw [ofText, hprogram]
    exact hf

/-- No chart is the fixed drawing, since it begins with its start. -/
theorem render_ofBody_ne_fallback (title : String) (body : List Stmt) :
    (Flowchart.ofBody title body).render ≠ fallback := by
  intro h
  have hchar := congrArg (fun s : String => s.toList[17]?) h
  simp [Flowchart.toList_render, Flowchart.ofBody, Flowchart.header, fallback,
    Flowchart.Line.render, Flowchart.NodeId.name] at hchar

/-- **The drawing of a text.**  Whatever the text is and whatever the outside does, a drawing is
    given.  It is the fixed one if the parser rejects the text, one of its whole numbers has more
    than 4300 digits, or its program has no subroutine, and only then; else it is the chart of the
    last subroutine. -/
theorem draw_falls_back_iff (text : String) :
    ∃ drawing, (∀ services log, ((draw text Option.none).outcome services log).1 = .ok drawing) ∧
      (drawing = fallback ↔
        (∃ e, parse text = .error e) ∨
        (∃ tree t, parse text = .ok tree ∧ tree.HasLong t) ∨
        ∃ program, programOfText text = .ok program ∧ program.subroutineNodes = []) ∧
      (drawing ≠ fallback → ∃ program s chart, programOfText text = .ok program ∧
        program.subroutineNodes.getLast? = some s ∧ Flowchart.ofValue s = .ok chart ∧
        drawing = chart.render) := by
  by_cases hfalls : FallsBack text
  · obtain ⟨f, hf⟩ := exists_ofText_error hfalls
    refine ⟨fallback, fun services log => ?_, iff_of_true rfl hfalls, absurd rfl⟩
    rw [draw, outcome_orFallback, hf]
    rfl
  · obtain ⟨program, s, hprogram, hs⟩ := exists_programOfText_of_not_fallsBack hfalls
    obtain ⟨chart, hchart, hdrawing⟩ :=
      exists_ofProgram_eq (programOfText_isProgram hprogram) hs
    have hne : chart.render ≠ fallback := by
      obtain ⟨body, title, -, rfl⟩ := Flowchart.eq_ofBody_of_ofValue hchart
      exact render_ofBody_ne_fallback title _
    refine ⟨chart.render, fun services log => ?_, iff_of_false hne hfalls, fun _ =>
      ⟨program, s, chart, hprogram, hs, hchart, rfl⟩⟩
    have htext : ofText text = .ok chart.render := by
      rw [ofText, hprogram]
      exact hdrawing
    rw [draw, outcome_orFallback, htext]
    rfl

end Diagram

end Ordo
