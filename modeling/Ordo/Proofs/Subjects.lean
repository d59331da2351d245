import Ordo.Proofs.Assessments

namespace Ordo

/-!
# What an assessment studies and draws

Of a program with subroutines one is studied and one is drawn.  The first that is recursive is
studied, and the last if there is none; the last is drawn.

* `Assessment.subjectIndex_eq_last_iff` — when the first recursive one is the last;
* `Assessment.length_classified` — every subroutine has a class;
* `Diagram.subject_of_isProgram` — the last subroutine is drawn;
* `Assessment.Studies`, `Assessment.Draws` — what an assessment says about a subroutine;
* `Assessment.exists_studies_of_fresh` — what an assessment from the start studies and draws;
* `assess_draws_studied_iff` — when both are the same subroutine.
-/

open Session List

namespace Assessment

/-! ### Which subroutine -/

theorem subjectIndex_lt {types : List AlgorithmType} (h : types ≠ []) :
    subjectIndex types < types.length := by
  have hpos : 0 < types.length := length_pos_iff.mpr h
  unfold subjectIndex
  cases hfound : types.findIdx? (· == .recursive) with
  | none =>
    rw [Option.getD_none]
    omega
  | some i =>
    obtain ⟨hi, -, -⟩ := findIdx?_eq_some_iff_getElem.mp hfound
    exact hi

/-- **The last subroutine is studied** if no other one is recursive. -/
theorem subjectIndex_eq_last_iff (types : List AlgorithmType) :
    subjectIndex types = types.length - 1 ↔
      ∀ k, types[k]? = some .recursive → k = types.length - 1 := by
  unfold subjectIndex
  cases hfound : types.findIdx? (· == .recursive) with
  | none =>
    have hnone := findIdx?_eq_none_iff.mp hfound
    refine iff_of_true rfl fun k hk => ?_
    have hk' := hnone _ (mem_of_getElem? hk)
    simp at hk'
  | some i =>
    obtain ⟨hi, hrecursive, hbefore⟩ := findIdx?_eq_some_iff_getElem.mp hfound
    rw [beq_iff_eq] at hrecursive
    show i = types.length - 1 ↔ _
    constructor
    · intro hlast k hk
      obtain ⟨hlt, hk⟩ := List.getElem?_eq_some_iff.mp hk
      -- a recursive one before the first recursive one there cannot be
      have hle : i ≤ k := by
        by_contra hki
        have hnot := hbefore k (by omega)
        rw [hk] at hnot
        simp at hnot
      omega
    · intro hall
      refine hall i ?_
      rw [getElem?_eq_getElem hi, hrecursive]

/-! ### Classes of subroutines -/

variable {program : Value}

/-- The subroutines of a program are read one by one. -/
theorem length_read_subroutines {p : Program} (h : program.IsProgram)
    (hp : Program.read program = .ok p) :
    p.subroutines.length = (subroutinesOf program).length := by
  obtain ⟨classes, _, rfl, subroutines, _, rfl, hsubroutines, declarations, body, rfl, -⟩ := h
  obtain rfl := Except.ok.inj hp
  show (subroutines.filterMap Subroutine.ofValue?).length = subroutines.length
  rw [length_filterMap_eq_countP, countP_eq_length]
  intro s hs
  obtain ⟨name, parameters, declarations, body, rfl, -⟩ := hsubroutines s hs
  rfl

/-- Every subroutine has a class. -/
theorem length_classified {c : Classification} (h : program.IsProgram)
    (hc : classified program = .ok c) : c.subroutines.length = (subroutinesOf program).length := by
  obtain ⟨p, hp, hclassify⟩ := bind_eq_ok_iff.mp hc
  rw [mapError_eq_ok_iff] at hp hclassify
  rw [← length_read_subroutines h hp]
  unfold Program.classify at hclassify
  obtain ⟨main, -, cs, hcs, hreturn⟩ := bind₂_eq_ok_iff.mp hclassify
  obtain rfl := pure_eq_ok_iff.mp hreturn
  exact length_of_mapM_eq_ok hcs

end Assessment

/-! ### Drawings of subroutines -/

/-- **The last subroutine is drawn.** -/
theorem Diagram.subject_of_isProgram {program : Value} (h : program.IsProgram)
    (hne : Assessment.subroutinesOf program ≠ []) :
    Diagram.subject program = .ok ((Assessment.subroutinesOf program).getLast hne) := by
  obtain ⟨classes, _, rfl, subroutines, main, rfl, -, -⟩ := h
  have hsubroutines : subroutines ≠ [] := hne
  have htrue : (Value.list subroutines).isTrue = true := by
    simp [Value.isTrue, hsubroutines]
  show (if (Value.list subroutines).isTrue = true then Except.ok (subroutines.getLastD .none)
    else _) = Except.ok (subroutines.getLast hsubroutines)
  rw [if_pos htrue, getLastD_eq_getLast?, getLast?_eq_some_getLast hsubroutines,
    Option.getD_some]

theorem Diagram.toOption_ofProgram {program s : Value} (h : Diagram.subject program = .ok s) :
    (Diagram.ofProgram program).toOption
      = (Flowchart.ofValue s).toOption.map Flowchart.render := by
  rw [Diagram.ofProgram, h]
  show ((Flowchart.ofValue s).mapError (fun u => Failure.chart u.error) >>= fun chart =>
    pure chart.render).toOption = _
  cases Flowchart.ofValue s <;> rfl

namespace Assessment

/-! ### Findings about a subroutine -/

/-- The study of a subroutine of the given type. -/
def studyOf (s : Value) (type : AlgorithmType) : Session Study := do
  let name ← Session.ofData (s.part "name")
  Study.conduct true s.serialize type.name name.asText

/-- What an assessment says about equations is what the specialists say when they are given a
    subroutine. -/
def Studies (services : Services) (log : Log) (a : Assessment) (s : Value)
    (type : AlgorithmType) : Prop :=
  ∃ study, ((studyOf s type).outcome services log).1 = .ok study ∧ a.study = some study

/-- The drawing of an assessment is that of a subroutine, or the fixed one if it has none. -/
def Draws (a : Assessment) (s : Value) : Prop :=
  a.drawing
    = .str (((Flowchart.ofValue s).toOption.map Flowchart.render).getD Diagram.fallback)

variable {context : Cache.Context} {services : Services} {log : Log}

theorem examine_eq_ok {program s : Value} {type : AlgorithmType} {f : Findings}
    (h : ((examine context program s type).outcome services log).1 = .ok f) :
    ((studyOf s type).outcome services log).1 = .ok f.study ∧
      f.drawing = (Diagram.ofProgram program).toOption.getD Diagram.fallback := by
  unfold examine at h
  obtain ⟨name, hname, h⟩ := outcome_bind_eq_ok_iff.mp h
  obtain ⟨study, hstudy, h⟩ := outcome_bind_eq_ok_iff.mp h
  -- whatever the study comes to, the drawing is made next
  obtain ⟨resolution, drawing, log', hdrawing, rfl⟩ : ∃ resolution drawing log',
      ((Diagram.draw context.pseudocode (some program)).outcome services log').1 = .ok drawing ∧
        f = ⟨study, resolution, drawing⟩ := by
    cases study with
    | extracted x =>
      obtain ⟨resolution, -, h⟩ := outcome_bind_eq_ok_iff.mp h
      obtain ⟨drawing, hdrawing, h⟩ := outcome_bind_eq_ok_iff.mp h
      obtain ⟨_, -, h⟩ := outcome_bind_eq_ok_iff.mp h
      exact ⟨resolution, drawing, _, hdrawing, (Except.ok.inj h).symm⟩
    | failed e type =>
      obtain ⟨resolution, -, h⟩ := outcome_bind_eq_ok_iff.mp h
      obtain ⟨drawing, hdrawing, h⟩ := outcome_bind_eq_ok_iff.mp h
      exact ⟨resolution, drawing, _, hdrawing, (Except.ok.inj h).symm⟩
  refine ⟨outcome_bind_eq_ok_iff.mpr ⟨name, hname, hstudy⟩, ?_⟩
  rw [Diagram.draw, Diagram.outcome_orFallback] at hdrawing
  exact (Except.ok.inj hdrawing).symm

/-- **What is studied and drawn** in an assessment from the start. -/
theorem exists_studies_of_fresh {a : Assessment} {program : Value}
    (h : ((fresh context).outcome services log).1 = .ok a)
    (hprogram : programOfText context.pseudocode = .ok program) (hne : subroutinesOf program ≠ []) :
    ∃ c s type, classified program = .ok c ∧
      (subroutinesOf program)[subjectIndex (c.subroutines.map SubroutineClass.type)]? = some s ∧
      (c.subroutines.map SubroutineClass.type)[subjectIndex
        (c.subroutines.map SubroutineClass.type)]? = some type ∧
      Studies services log a s type ∧ Draws a ((subroutinesOf program).getLast hne) := by
  have hshape := programOfText_isProgram hprogram
  obtain ⟨tree, htree, hbuild⟩ := bind_eq_ok_iff.mp hprogram
  unfold fresh at h
  rw [outcome_ofExcept_bind htree, outcome_ofExcept_bind hbuild] at h
  obtain ⟨c, hc, h⟩ := outcome_bind_eq_ok_iff.mp h
  -- the chosen number is that of a subroutine, and of its class
  have hlength := length_classified hshape hc
  have htypes : c.subroutines.map SubroutineClass.type ≠ [] := by
    rw [← length_pos_iff, length_map, hlength, length_pos_iff]
    exact hne
  have hindex := subjectIndex_lt htypes
  have hindex' : subjectIndex (c.subroutines.map SubroutineClass.type)
      < (subroutinesOf program).length := by
    rw [← hlength, ← length_map]
    exact hindex
  dsimp only at h
  rw [getElem?_eq_getElem hindex', getElem?_eq_getElem hindex] at h
  obtain ⟨findings, hfindings, h⟩ := outcome_bind_eq_ok_iff.mp h
  obtain ⟨f, hf, rfl⟩ := outcome_map_eq_ok_iff.mp hfindings
  obtain rfl := Except.ok.inj h
  obtain ⟨hstudy, hdrawing⟩ := examine_eq_ok hf
  refine ⟨c, _, _, hc, getElem?_eq_getElem hindex', getElem?_eq_getElem hindex,
    ⟨f.study, hstudy, rfl⟩, ?_⟩
  rw [Draws, ← Diagram.toOption_ofProgram (Diagram.subject_of_isProgram hshape hne), ← hdrawing]
  rfl

end Assessment

open Assessment

/-- **When the subroutine that is studied is drawn.**  If there is no assessment in the cache and
    one from the start succeeds on a program with subroutines, then the specialists are given the
    first recursive subroutine, or the last one if none is recursive, and the last one is drawn.
    So both are the same if and only if none but the last is recursive. -/
theorem assess_draws_studied_iff {text : String} {description : Option String}
    {services : Services} {log : Log} {a : Assessment} {program : Value}
    (hmiss : ∀ a, ((fromCache text).outcome services log).1 ≠ .ok (some a))
    (h : ((assess text description).outcome services log).1 = .ok a)
    (hprogram : programOfText text = .ok program) (hne : subroutinesOf program ≠ []) :
    ∃ c studied drawn, classified program = .ok c ∧
      (∃ s type, (subroutinesOf program)[studied]? = some s ∧
        (c.subroutines.map SubroutineClass.type)[studied]? = some type ∧
        Studies services ((fromCache text).outcome services log).2 a s type) ∧
      (∃ s, (subroutinesOf program)[drawn]? = some s ∧ Diagram.subject program = .ok s ∧
        Draws a s) ∧
      drawn + 1 = (subroutinesOf program).length ∧
      studied = subjectIndex (c.subroutines.map SubroutineClass.type) ∧
      (studied = drawn ↔
        ∀ k, (c.subroutines.map SubroutineClass.type)[k]? = some .recursive → k = drawn) := by
  have hnone : ((fromCache text).outcome services log).1 = .ok none := by
    obtain ⟨_ | b, hb⟩ := settles_fromCache text services log
    · exact hb
    · exact absurd hb (hmiss b)
  rw [outcome_assess_of_miss hnone] at h
  obtain ⟨c, s, type, hc, hs, htype, hstudies, hdraws⟩ := exists_studies_of_fresh h hprogram hne
  have hshape := programOfText_isProgram hprogram
  have hlength := length_classified hshape hc
  have hpos : 0 < (subroutinesOf program).length := List.length_pos_iff.mpr hne
  refine ⟨c, _, (subroutinesOf program).length - 1, hc, ⟨s, type, hs, htype, hstudies⟩,
    ⟨_, ?_, Diagram.subject_of_isProgram hshape hne, hdraws⟩, by omega, rfl, ?_⟩
  · rw [List.getLast_eq_getElem, List.getElem?_eq_getElem]
  · have hlast := subjectIndex_eq_last_iff (c.subroutines.map SubroutineClass.type)
    rw [List.length_map, hlength] at hlast
    exact hlast

/-- A recursive subroutine before one that is not. -/
def helperLast : String := "f(n) begin return f(n) end g(n) begin x := 1 end begin end"

theorem exists_classified_helperLast :
    ∃ program c, programOfText helperLast = .ok program ∧ classified program = .ok c ∧
      c.subroutines.map SubroutineClass.type = [.recursive, .simple] := by
  have htypes : (programOfText helperLast).toOption.any (fun v => (classified v).toOption.any
      fun c => c.subroutines.map SubroutineClass.type = [.recursive, .simple]) = true := by
    decide +kernel
  obtain ⟨program, hprogram, htypes⟩ := exists_eq_ok_of_any htypes
  obtain ⟨c, hc, htypes⟩ := exists_eq_ok_of_any htypes
  exact ⟨program, c, hprogram, hc, of_decide_eq_true htypes⟩

/-- The recursive subroutine is studied and the other one drawn, also without a model and without
    a cache. -/
theorem assess_draws_studied_iff_helperLast :
    ∃ a program s t type, ((assess helperLast none).outcome ⟨none, none⟩ Log.empty).1 = .ok a ∧
      programOfText helperLast = .ok program ∧
      (subroutinesOf program)[0]? = some s ∧
      Studies ⟨none, none⟩ ((fromCache helperLast).outcome ⟨none, none⟩ Log.empty).2 a s type ∧
      (subroutinesOf program)[1]? = some t ∧ Draws a t := by
  obtain ⟨program, c, hprogram, hc, htypes⟩ := exists_classified_helperLast
  have hmiss : ((fromCache helperLast).outcome ⟨none, none⟩ Log.empty).1 = .ok none := rfl
  have hlength : (subroutinesOf program).length = 2 := by
    rw [← length_classified (programOfText_isProgram hprogram) hc, ← List.length_map, htypes]
    rfl
  have hne : subroutinesOf program ≠ [] := by
    rw [← List.length_pos_iff]
    omega
  obtain ⟨a, ha⟩ := (exists_fresh_iff ⟨helperLast, Value.ofText? none, Cache.usualCost⟩
    ⟨none, none⟩ ((fromCache helperLast).outcome ⟨none, none⟩ Log.empty).2).mpr
      ⟨program, hprogram, c, hc⟩
  rw [← outcome_assess_of_miss hmiss] at ha
  obtain ⟨c', studied, drawn, hc', ⟨s, type, hs, -, hstudies⟩, ⟨t, ht, -, hdraws⟩, hdrawn,
    hstudied, -⟩ := assess_draws_studied_iff (by rw [hmiss]; rintro b ⟨⟩) ha hprogram hne
  obtain rfl : c = c' := Except.ok.inj (hc.symm.trans hc')
  rw [htypes] at hstudied
  obtain rfl : studied = 0 := hstudied
  obtain rfl : drawn = 1 := by omega
  exact ⟨a, program, s, t, type, ha, hprogram, hs, hstudies, ht, hdraws⟩

end Ordo
