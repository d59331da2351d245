import Ordo.Assessment
import Ordo.Proofs.Sessions
import Ordo.Proofs.ParsedTrees

namespace Ordo

/-!
# When an assessment fails

What the model, the cache and the drawing do wrong is caught on the way, so an assessment from
the start fails only at the text: if it is no program, or if a repeat loop keeps it from being
classified.  Neither its result nor its requests to the model depend on the cache.

* `Agent.onlyQueries_takeTurns` — conversations make no queries;
* `Program.exists_classify_iff` — which programs can be classified;
* `Assessment.settles_examine`, `Assessment.ignoresCache_examine` — the findings about a
  subroutine;
* `Assessment.exists_fresh_iff`, `Assessment.ignoresCache_fresh` — assessments from the start;
* `assess_fails_iff` — when an assessment that is not in the cache fails.
-/

open Session

variable {P : Query → Prop}

/-! ### Conversations -/

variable (agent : Agent) (kind : CaseKind) (r : Except Failure String)

theorem Agent.onlyQueries_takeTurns (limit : Limit) (left made : Nat) (messages : List Message) :
    OnlyQueries P (agent.takeTurns limit left made messages) := by
  induction left generalizing made messages with
  | zero => exact onlyQueries_pure _
  | succ left ih =>
    refine (onlyQueries_reply _).bind fun reply => ?_
    cases reply.stop with
    | endTurn => exact (onlyQueries_ofExcept _).bind fun _ => onlyQueries_pure _
    | toolUse => exact (onlyQueries_ofExcept _).bind fun _ => ih _ _
    | other reason => exact onlyQueries_pure _

theorem Agent.onlyQueries_converse (prompt : Value) (limit : Limit) :
    OnlyQueries P (agent.converse prompt limit) :=
  agent.onlyQueries_takeTurns limit _ _ _

theorem Specialist.onlyQueries_study (s : Specialist) (subject : Value) (name : String) :
    OnlyQueries P (s.study true subject name) := by
  refine (onlyQueries_requireKey _).bind fun _ => ?_
  refine OnlyQueries.bind ?_ fun finding => ?_
  · exact (s.agent.onlyQueries_converse _ _).bind fun _ => onlyQueries_ofExcept _
  · cases finding.result with
    | error e => exact onlyQueries_pure _
    | ok data =>
      refine (onlyQueries_ofExcept _).bind fun x => OnlyQueries.bind ?_ fun _ =>
        onlyQueries_pure _
      unfold Specialist.announce
      split
      · exact onlyQueries_sayLine _
      · exact onlyQueries_pure _

theorem Study.onlyQueries_conduct (subject : Value) (classification name : String) :
    OnlyQueries P (Study.conduct true subject classification name) := by
  unfold Study.conduct
  dsimp only
  split
  · exact onlyQueries_pure _
  · rename_i s _
    refine (s.onlyQueries_study subject name).attempt.bind fun r => ?_
    cases r <;> exact onlyQueries_pure _

/-- A failure of the specialist is what comes of a study. -/
theorem Study.settles_conduct (installed : Bool) (subject : Value) (classification name : String) :
    Settles (Study.conduct installed subject classification name) := by
  unfold Study.conduct
  dsimp only
  split
  · exact settles_pure _
  · refine (settles_attempt _).bind fun r => ?_
    cases r <;> exact settles_pure _

theorem Resolver.onlyQueries_resolveFunction (function : String) :
    OnlyQueries P (Resolver.resolveFunction kind function) := by
  refine (onlyQueries_requireKey _).bind fun _ => OnlyQueries.bind ?_ fun _ =>
    onlyQueries_pure _
  refine (Agent.resolver.onlyQueries_converse _ _).bind fun ending => ?_
  cases ending.result with
  | error e => exact onlyQueries_pure _
  | ok text =>
    dsimp only
    split
    · exact onlyQueries_pure _
    · exact (onlyQueries_sayLine _).bind fun _ => onlyQueries_pure _

theorem Resolver.onlyQueries_resolveCase? (c : Option ExtractedCase) :
    OnlyQueries P (Resolver.resolveCase? kind c) := by
  cases c with
  | none => exact onlyQueries_pure _
  | some c => exact (onlyQueries_resolveFunction _ _).bind fun _ => onlyQueries_pure _

theorem Resolver.onlyQueries_resolveAll (x : Extraction) :
    OnlyQueries P (Resolver.resolveAll x) := by
  unfold Resolver.resolveAll
  split
  · exact (onlyQueries_resolveCase? _ _).bind fun _ =>
      (onlyQueries_resolveCase? _ _).bind fun _ =>
      (onlyQueries_resolveCase? _ _).bind fun _ => onlyQueries_pure _
  · refine (onlyQueries_requireKey _).bind fun _ => ?_
    split
    · exact (onlyQueries_resolveFunction _ _).bind fun _ => onlyQueries_pure _
    · exact onlyQueries_ofExcept (.error _)

/-! ### Drawings -/

/-- The drawing that is shown, and the fixed one in place of a failure. -/
theorem Diagram.outcome_orFallback (services : Services) (log : Log) :
    ((Diagram.orFallback r).outcome services log).1
      = .ok (r.toOption.getD Diagram.fallback) := by
  cases r <;> rfl

theorem Diagram.settles_orFallback : Settles (Diagram.orFallback r) :=
  fun services log => ⟨_, outcome_orFallback r services log⟩

theorem Diagram.onlyQueries_orFallback : OnlyQueries P (Diagram.orFallback r) := by
  cases r with
  | ok drawing => exact onlyQueries_pure _
  | error e => exact (onlyQueries_sayLine _).bind fun _ => onlyQueries_pure _

/-! ### Classification -/

theorem whenWalkable_eq_ok_iff {α : Type} {body : List Stmt} {a b : α} :
    whenWalkable body a = .ok b ↔ Stmt.anyRepeat body = false ∧ a = b := by
  unfold whenWalkable
  cases Stmt.anyRepeat body <;> simp

/-- The bodies of the main part and of the subroutines. -/
def Program.bodies (p : Program) : List (List Stmt) :=
  p.body :: p.subroutines.map Subroutine.body

/-- **A program is classified** if no repeat loop is met in its bodies. -/
theorem Program.exists_classify_iff (p : Program) :
    (∃ c, p.classify = .ok c) ↔ ∀ body ∈ p.bodies, Stmt.anyRepeat body = false := by
  have hsubroutines : (∃ cs, p.subroutines.mapM Subroutine.classify = .ok cs) ↔
      ∀ s ∈ p.subroutines, Stmt.anyRepeat s.body = false := by
    simp only [exists_mapM_iff, Subroutine.classify, whenWalkable_eq_ok_iff, exists_and_left,
      exists_eq', and_true]
  rw [bodies, List.forall_mem_cons, List.forall_mem_map, ← hsubroutines]
  unfold Program.classify
  simp only [bind_eq_ok_iff, whenWalkable_eq_ok_iff]
  constructor
  · rintro ⟨c, main, ⟨hbody, -⟩, cs, hcs, -⟩
    exact ⟨hbody, cs, hcs⟩
  · rintro ⟨hbody, cs, hcs⟩
    exact ⟨_, _, ⟨hbody, rfl⟩, cs, hcs, rfl⟩

theorem Program.exists_read {v : Value} (h : v.IsProgram) : ∃ p, Program.read v = .ok p := by
  obtain ⟨classes, _, rfl, subroutines, _, rfl, -, declarations, body, rfl, -⟩ := h
  exact ⟨_, rfl⟩

namespace Assessment

variable (context : Cache.Context) (x : Extraction) (r : Option Resolution) (drawing : String)
  {program : Value}

/-- Programs are classified unless a repeat loop is met. -/
theorem exists_classified_iff (h : program.IsProgram) :
    (∃ c, classified program = .ok c) ↔
      ∃ p, Program.read program = .ok p ∧ ∀ body ∈ p.bodies, Stmt.anyRepeat body = false := by
  obtain ⟨p, hp⟩ := Program.exists_read h
  simp only [classified, bind_eq_ok_iff, mapError_eq_ok_iff, hp, Except.ok.injEq,
    exists_eq_left', Program.exists_classify_iff]

/-! ### Findings -/

theorem onlyQueries_sayBounds (r : Resolution) : OnlyQueries P (sayBounds r) := by
  have hcase : ∀ label c, OnlyQueries P (sayBound label c) := by
    intro label c
    cases c with
    | none => exact onlyQueries_pure _
    | some c => exact onlyQueries_sayLine _
  unfold sayBounds
  split
  · exact (hcase _ _).bind fun _ => (hcase _ _).bind fun _ => hcase _ _
  · exact hcase _ _

theorem onlyQueries_resolved : OnlyQueries P (resolved x) := by
  refine OnlyQueries.bind (OnlyQueries.attempt ?_) fun r => ?_
  · exact (onlyQueries_requireKey _).bind fun _ =>
      (Resolver.onlyQueries_resolveAll x).bind fun r =>
      (onlyQueries_sayBounds r).bind fun _ => onlyQueries_pure _
  · cases r with
    | ok r => exact onlyQueries_pure _
    | error f => exact (onlyQueries_sayLine _).bind fun _ => onlyQueries_pure _

theorem settles_resolved : Settles (resolved x) := by
  refine (settles_attempt _).bind fun r => ?_
  cases r with
  | ok r => exact settles_pure _
  | error f => exact (settles_sayLine _).bind fun _ => settles_pure _

theorem settles_keep : Settles (keep context x r drawing) := by
  refine (settles_attempt _).bind fun r => ?_
  cases r with
  | ok r => exact settles_pure _
  | error f => exact settles_sayLine _

theorem isQuiet_keep : IsQuiet (keep context x r drawing) := by
  refine IsQuiet.bind (IsQuiet.attempt ?_) fun r => ?_
  · exact (isQuiet_ofData _).bind fun _ => isQuiet_lookup _
  · cases r with
    | ok r => exact isQuiet_pure _
    | error f => exact isQuiet_sayLine _

/-- Findings do not depend on the cache, in which they are kept. -/
theorem ignoresCache_examine (program subroutine : Value) (type : AlgorithmType) :
    IgnoresCache (examine context program subroutine type) := by
  refine (onlyQueries_ofExcept _).ignoresCache.bind fun name => ?_
  refine (Study.onlyQueries_conduct _ _ _).ignoresCache.bind fun study => ?_
  cases study with
  | extracted x =>
    exact (onlyQueries_resolved x).ignoresCache.bind fun resolution =>
      (Diagram.onlyQueries_orFallback _).ignoresCache.bind fun drawing =>
      ((isQuiet_keep _ _ _ _).ignoresCache (settles_keep _ _ _ _)).bind fun _ =>
      ignoresCache_pure _
  | failed e type =>
    exact (ignoresCache_pure _).bind fun resolution =>
      (Diagram.onlyQueries_orFallback _).ignoresCache.bind fun drawing => ignoresCache_pure _

/-- There are findings about every subroutine, whatever the outside does. -/
theorem settles_examine (program : Value) {subroutine : Value} (type : AlgorithmType)
    (h : subroutine.IsSubroutine) : Settles (examine context program subroutine type) := by
  obtain ⟨name, parameters, declarations, body, rfl, -⟩ := h
  refine Settles.bind (settles_ofData (a := .str name) rfl) fun name => ?_
  refine (Study.settles_conduct _ _ _ _).bind fun study => ?_
  cases study with
  | extracted x =>
    exact (settles_resolved x).bind fun resolution =>
      (Diagram.settles_orFallback _).bind fun drawing =>
      (settles_keep _ _ _ _).bind fun _ => settles_pure _
  | failed e type =>
    exact (settles_pure _).bind fun resolution =>
      (Diagram.settles_orFallback _).bind fun drawing => settles_pure _

/-! ### Assessments from the start -/

theorem ignoresCache_fresh : IgnoresCache (fresh context) := by
  have hread : ∀ {α : Type} (r : Except Failure α), IgnoresCache (Session.ofExcept r) :=
    fun r => (onlyQueries_ofExcept r).ignoresCache
  refine (hread _).bind fun tree => (hread _).bind fun program =>
    (hread _).bind fun classification => ?_
  dsimp only
  split
  · exact ((ignoresCache_examine _ _ _ _).map some).bind fun _ => ignoresCache_pure _
  · exact (ignoresCache_pure _).bind fun _ => ignoresCache_pure _

/-- The subroutines of a program have all their fields. -/
theorem isSubroutine_of_mem_subroutinesOf {s : Value} (h : program.IsProgram)
    (hs : s ∈ subroutinesOf program) : s.IsSubroutine := by
  obtain ⟨classes, _, rfl, subroutines, main, rfl, hsubroutines, -⟩ := h
  exact hsubroutines s hs

/-- **An assessment from the start succeeds** on programs that can be classified. -/
theorem exists_fresh_iff (services : Services) (log : Log) :
    (∃ a, ((fresh context).outcome services log).1 = .ok a) ↔
      ∃ program, programOfText context.pseudocode = .ok program ∧
        ∃ c, classified program = .ok c := by
  constructor
  · rintro ⟨a, h⟩
    simp only [fresh, outcome_bind_eq_ok_iff, outcome_ofExcept] at h
    obtain ⟨tree, htree, program, hprogram, c, hc, -⟩ := h
    exact ⟨program, bind_eq_ok_iff.mpr ⟨tree, htree, hprogram⟩, c, hc⟩
  · rintro ⟨program, hprogram, c, hc⟩
    have hshape := programOfText_isProgram hprogram
    obtain ⟨tree, htree, hbuild⟩ := bind_eq_ok_iff.mp hprogram
    unfold fresh
    rw [outcome_ofExcept_bind htree, outcome_ofExcept_bind hbuild, outcome_ofExcept_bind hc]
    dsimp only
    -- from here on every step gives a result
    split
    · rename_i s type hs _
      have hexamine := settles_examine context program type
        (isSubroutine_of_mem_subroutinesOf hshape (List.mem_of_getElem? hs))
      exact (hexamine.map some).bind (fun _ => settles_pure _) services log
    · exact (settles_pure _).bind (fun _ => settles_pure _) services log

/-! ### Assessments -/

/-- A failing cache is as good as none. -/
theorem settles_fromCache (text : String) : Settles (fromCache text) := by
  refine (settles_attempt _).bind fun r => ?_
  cases r with
  | ok a => exact settles_pure _
  | error f => exact (settles_sayLine _).bind fun _ => settles_pure _

/-- What the cache does not have is assessed from the start. -/
theorem outcome_assess_of_miss {text : String} {description : Option String}
    {services : Services} {log : Log}
    (hmiss : ((fromCache text).outcome services log).1 = .ok none) :
    (assess text description).outcome services log
      = (fresh ⟨text, Value.ofText? description, Cache.usualCost⟩).outcome services
          ((fromCache text).outcome services log).2 :=
  outcome_bind_of_ok hmiss

end Assessment

/-- **When an assessment fails.**  Whatever the model and the cache do, if there is no assessment
    in the cache, then it fails exactly if the text is rejected, or has a whole number of too many
    digits, or a repeat loop is reached from one of its bodies through the bodies of other loops
    and the branches of conditionals. -/
theorem assess_fails_iff {text : String} {description : Option String} {services : Services}
    {log : Log} (hmiss : ∀ a, ((Assessment.fromCache text).outcome services log).1 ≠ .ok (some a)) :
    (∃ f, ((assess text description).outcome services log).1 = .error f) ↔
      (∃ e, parse text = .error e) ∨
      (∃ d, derive text.toList = .ok d ∧ ∃ t ∈ d.tokens, t.isLongWhole = true) ∨
      ∃ program p, programOfText text = .ok program ∧ Program.read program = .ok p ∧
        ∃ body ∈ p.bodies, ∃ loop, loop.isRepeat = true ∧
          Stmt.Reached (fun s => !s.isRepeat) loop body := by
  have hnone : ((Assessment.fromCache text).outcome services log).1 = .ok none := by
    obtain ⟨r, hr⟩ := Assessment.settles_fromCache text services log
    cases r with
    | none => exact hr
    | some a => exact absurd hr (hmiss a)
  rw [Assessment.outcome_assess_of_miss hnone, exists_error_iff, Assessment.exists_fresh_iff,
    ← or_assoc, ← exists_programOfText_error_iff]
  -- the text is no program, or it is one and its classification decides
  simp only [← Stmt.anyRepeat_iff_reached]
  cases hprogram : programOfText text with
  | error f => exact iff_of_true (by simp) (.inl ⟨f, rfl⟩)
  | ok program =>
    have hshape := programOfText_isProgram hprogram
    obtain ⟨p, hp⟩ := Program.exists_read hshape
    have hclassified : (∃ c, Assessment.classified program = .ok c) ↔
        ∀ body ∈ p.bodies, Stmt.anyRepeat body = false := by
      rw [Assessment.exists_classified_iff hshape, hp]
      simp
    simp [hclassified, hp]

/-- A repeat loop inside another loop, without a model and without a cache. -/
theorem assess_fails_iff_inner_repeat :
    ∃ f, ((assess "begin while (x) do begin repeat x := 1 until (x) end end" none).outcome
      ⟨none, none⟩ Log.empty).1 = .error f := by
  refine (assess_fails_iff ?_).mpr (.inr (.inr ?_))
  · rintro a ⟨⟩
  · have hrepeat : ((programOfText
        "begin while (x) do begin repeat x := 1 until (x) end end").toOption.bind
          fun v => (Program.read v).toOption).any (fun p => Stmt.anyRepeat p.body) = true := by
      decide +kernel
    cases hprogram :
        programOfText "begin while (x) do begin repeat x := 1 until (x) end end" with
    | error f =>
      rw [hprogram] at hrepeat
      cases hrepeat
    | ok program =>
      obtain ⟨p, hp⟩ := Program.exists_read (programOfText_isProgram hprogram)
      rw [hprogram, show (Except.ok program : Except Failure Value).toOption = some program from
        rfl, Option.bind_some, hp] at hrepeat
      exact ⟨program, p, rfl, hp, p.body, List.mem_cons_self,
        (Stmt.anyRepeat_iff_reached p.body).mp hrepeat⟩

end Ordo
