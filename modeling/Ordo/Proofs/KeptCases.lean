import Ordo.Proofs.CacheRows

namespace Ordo

/-!
# Cases that come back

What comes back of an extraction and of a resolution from the row in which they are kept.
Extractions come back with all their cases.  Bounds that lack an upper one do not come back, and
whether a bound is tight is not read but told from the bound on both sides.

* `Extraction.IsLike`, `Cache.extraction_of_keeps` — extractions;
* `Resolution.restored?`, `Cache.resolution_of_keeps` — the bounds that come back;
* `Resolution.IsKeepable`, `Resolution.IsOf.restored_iff` — resolutions that come back whole;
* `Cache.extraction_kept`, `Cache.resolution_kept_iff` — extractions from studies, and bounds
  from the model.
-/

open List Option

/-! ### What comes back -/

/-- The explanation of the case of a kind, if there is such a case. -/
def Extraction.explanation? (x : Extraction) : CaseKind → Option String
  | .best => x.best.map ExtractedCase.explanation
  | .worst => x.worst.map ExtractedCase.explanation
  | .average => x.average.map ExtractedCase.explanation
  | .unified => x.unified.map UnifiedCase.explanation

/-- An extraction has the name, the type and the flag of another one, and the same cases with
    the same equations and explanations. -/
structure Extraction.IsLike (y x : Extraction) : Prop where
  name : y.name = x.name
  type : y.form.name = x.form.name
  flag : y.hasDifferentCases = x.hasDifferentCases
  function : ∀ kind, y.function? kind = x.function? kind
  explanation : ∀ kind, y.explanation? kind = x.explanation? kind

/-- Whether a study gives an extraction. -/
def Study.isExtracted : Study → Bool
  | extracted _ => true
  | failed _ _ => false

/-- A resolution is of the cases that an extraction uses, with their equations. -/
structure Resolution.IsOf (r : Resolution) (x : Extraction) : Prop where
  flag : r.hasDifferentCases = x.hasDifferentCases
  agreeing : r.hasDifferentCases = false → r.best = none ∧ r.worst = none ∧ r.average = none
  differing : r.hasDifferentCases = true → r.unified = none
  told : ∀ kind c, r.case? kind = some c →
    c.kind = kind ∧ ∃ explanation, x.told? kind = some (c.equation, explanation)

variable {x : Extraction} {r : Resolution}

theorem Resolution.isOf_of_resolveAll {services : Services} {log : Log}
    (h : ((Resolver.resolveAll x).outcome services log).1 = .ok r) : r.IsOf x := by
  obtain ⟨hflag, u, c, hu, hequation, rfl, hkind, -⟩ |
    ⟨hflag, best, worst, average, rfl, hbest, hworst, haverage, hanswered⟩ :=
      Resolver.resolveAll_cases h
  · refine ⟨hflag.symm, fun _ => ⟨rfl, rfl, rfl⟩, fun h => absurd h Bool.false_ne_true,
      fun kind c' hc' => ?_⟩
    cases kind with
    | unified =>
      obtain rfl := Option.some.inj hc'
      refine ⟨hkind, u.explanation, ?_⟩
      rw [Extraction.told?, hflag, hu, hequation]
      rfl
    | _ => cases hc'
  · have htold {case : Option ExtractedCase} {resolved : Option CaseResolution}
        {c : CaseResolution}
        (h : resolved.map CaseResolution.equation = case.map ExtractedCase.function)
        (hc : resolved = some c) :
        ∃ explanation, case.map ExtractedCase.told = some (c.equation, explanation) := by
      subst hc
      obtain ⟨case, rfl, hcase⟩ := map_eq_some_iff.mp h.symm
      exact ⟨case.explanation, by rw [← hcase]; rfl⟩
    refine ⟨hflag.symm, fun h => absurd h.symm Bool.false_ne_true, fun _ => rfl,
      fun kind c hc => ⟨(hanswered kind c hc).1, ?_⟩⟩
    cases kind with
    | best => rw [Extraction.told?, if_pos hflag]; exact htold hbest hc
    | worst => rw [Extraction.told?, if_pos hflag]; exact htold hworst hc
    | average => rw [Extraction.told?, if_pos hflag]; exact htold haverage hc
    | unified => cases hc

/-- The bounds of a case as they come back: without an upper bound not at all, and as tight if
    there is a bound from both sides. -/
def CaseResolution.restored? (c : CaseResolution) : Option CaseResolution :=
  if c.complexity.upper = "" then none
  else some { c with complexity := { c.complexity with isTight := c.complexity.tight.isSome } }

/-- The bounds of the case of a kind that come back. -/
def Resolution.restored? (r : Resolution) (kind : CaseKind) : Option CaseResolution :=
  (r.case? kind).bind CaseResolution.restored?

/-- Whether anything comes back; an average case alone is not looked for. -/
def Resolution.comesBack (r : Resolution) : Bool :=
  (r.restored? .unified).isSome || (r.restored? .best).isSome || (r.restored? .worst).isSome

/-- A resolution loses nothing: every case has an upper bound and is called tight if it has a
    bound from both sides, and there is no average case alone. -/
structure Resolution.IsKeepable (r : Resolution) : Prop where
  bounded : ∀ kind c, r.case? kind = some c → c.complexity.upper ≠ ""
  tight : ∀ kind c, r.case? kind = some c → c.complexity.isTight = c.complexity.tight.isSome
  average : r.average.isSome = true → r.best.isSome = true ∨ r.worst.isSome = true

theorem Resolution.IsKeepable.restored?_eq (h : r.IsKeepable) (kind : CaseKind) :
    r.restored? kind = r.case? kind := by
  rw [Resolution.restored?]
  cases hc : r.case? kind with
  | none => rfl
  | some c =>
    rw [bind_some, CaseResolution.restored?, if_neg (h.bounded kind c hc),
      ← h.tight kind c hc]

theorem Resolution.IsKeepable.comesBack (h : r.IsKeepable) {kind : CaseKind}
    {c : CaseResolution} (hc : r.case? kind = some c) : r.comesBack = true := by
  rw [Resolution.comesBack, h.restored?_eq, h.restored?_eq, h.restored?_eq]
  cases kind with
  | unified => simp [hc]
  | best => simp [hc]
  | worst => simp [hc]
  | average =>
    rcases h.average (isSome_of_eq_some hc) with hbest | hworst
    · simp [Resolution.case?, hbest]
    · simp [Resolution.case?, hworst]

/-- What comes back is all there was exactly if nothing can get lost. -/
theorem Resolution.IsOf.restored_iff (hr : r.IsOf x) :
    (∀ kind, (if r.comesBack then (r.restored? kind).map CaseResolution.toRecord else none)
      = (r.case? kind).map CaseResolution.toRecord) ↔ r.IsKeepable := by
  constructor
  · intro h
    have hback {kind : CaseKind} {c : CaseResolution} (hc : r.case? kind = some c) :
        r.comesBack = true ∧ c.complexity.upper ≠ "" ∧
          c.complexity.isTight = c.complexity.tight.isSome := by
      have hkind := h kind
      rw [Resolution.restored?, hc, bind_some, CaseResolution.restored?] at hkind
      split at hkind
      case isFalse => cases hkind
      case isTrue hback =>
        split at hkind
        case isTrue => cases hkind
        case isFalse hupper =>
          refine ⟨hback, hupper, ?_⟩
          simpa [CaseResolution.toRecord, Complexity.toRecord] using hkind.symm
    refine ⟨fun kind c hc => (hback hc).2.1, fun kind c hc => (hback hc).2.2, fun haverage => ?_⟩
    -- the average case has come back, so one of the cases that are looked for is there
    obtain ⟨c, hc⟩ : ∃ c, r.case? .average = some c := isSome_iff_exists.mp haverage
    have hflag : r.hasDifferentCases = true := by
      by_contra hflag
      rw [Resolution.case?, (hr.agreeing (Bool.eq_false_iff.mpr hflag)).2.2] at hc
      cases hc
    have hcomes := (hback hc).1
    simp only [Resolution.comesBack, Resolution.restored?, Resolution.case?,
      hr.differing hflag] at hcomes
    cases hbest : r.best with
    | some b => exact .inl rfl
    | none =>
      cases hworst : r.worst with
      | some w => exact .inr rfl
      | none =>
        rw [hbest, hworst] at hcomes
        cases hcomes
  · intro h kind
    rw [h.restored?_eq]
    cases hc : r.case? kind with
    | none => simp
    | some c => rw [if_pos (h.comesBack hc)]

namespace Cache

variable {context : Context} {x : Extraction} {bounds : CaseKind → Option Complexity}
  {stored : Value}

attribute [local simp] boundsColumns Resolution.case?

/-! ### Extractions that are read -/

theorem name_restoredForm (form : AlgorithmForm) :
    (restoredForm (.str form.name)).name = form.name := by
  cases form <;> rfl

theorem restoredCase_kept (kind : CaseKind) {told : String × String}
    (hkeeps : Keeps stored (keptColumns context x bounds)) (htold : x.told? kind = some told) :
    restoredCase stored kind (equationStart kind)
      = .ok ⟨kind, "unknown", true, told.1, told.2⟩ := by
  have hfunction := hkeeps.textColumn (mem_equationColumns kind htold mem_cons_self)
  have hexplanation := hkeeps.textColumn
    (mem_equationColumns kind htold (mem_cons_of_mem _ mem_cons_self))
  exact bind_eq_ok_iff.mpr ⟨_, hfunction, bind_eq_ok_iff.mpr ⟨_, hexplanation, rfl⟩⟩

/-- **Extractions come back**, if they have their cases in order. -/
theorem extraction_of_keeps (hx : x.IsCoherent)
    (hkeeps : Keeps stored (keptColumns context x bounds)) :
    ∃ y, extraction stored = .ok y ∧ y.IsLike x := by
  obtain ⟨hname, htype, hflag⟩ := hkeeps.base
  cases hx with
  | agreeing name form unified =>
    have hfunction := hkeeps.textColumn
      (mem_equationColumns .unified rfl mem_cons_self)
    have hexplanation := hkeeps.textColumn
      (mem_equationColumns .unified rfl (mem_cons_of_mem _ mem_cons_self))
    refine ⟨_, bind_eq_ok_iff.mpr ⟨_, htype, bind_eq_ok_iff.mpr ⟨_, hflag, bind_eq_ok_iff.mpr
      ⟨_, hfunction, bind_eq_ok_iff.mpr ⟨_, hexplanation, bind_eq_ok_iff.mpr
        ⟨_, hname, rfl⟩⟩⟩⟩⟩, rfl, name_restoredForm form, rfl, fun kind => ?_, fun kind => ?_⟩
    · cases kind <;> rfl
    · cases kind <;> rfl
  | differing name form best worst average haverage =>
    have hbest := restoredCase_kept .best hkeeps rfl
    have hworst := restoredCase_kept .worst hkeeps rfl
    cases average with
    | none =>
      have hblank := hkeeps.entryOr_blank
        (mem_columnNames_of_equation .average mem_cons_self) (lookup_function_eq_none rfl)
      refine ⟨_, bind_eq_ok_iff.mpr ⟨_, htype, bind_eq_ok_iff.mpr ⟨_, hflag, bind_eq_ok_iff.mpr
        ⟨_, hbest, bind_eq_ok_iff.mpr ⟨_, hworst, bind_eq_ok_iff.mpr ⟨_, hblank,
          bind_eq_ok_iff.mpr ⟨_, rfl, bind_eq_ok_iff.mpr ⟨_, hname, rfl⟩⟩⟩⟩⟩⟩⟩,
        rfl, name_restoredForm form, rfl, fun kind => ?_, fun kind => ?_⟩
      · cases kind <;> rfl
      · cases kind <;> rfl
    | some c =>
      -- an average case is looked for by its equation, which therefore has to be there
      have hfunction := hkeeps.entryOr .none (mem_equationColumns .average rfl mem_cons_self)
      have hgiven : (Value.str c.told.1).isTrue = true := (isTrue_str _).mpr (haverage c rfl)
      have hcase := congrArg (some <$> ·) (restoredCase_kept .average hkeeps rfl)
      refine ⟨_, bind_eq_ok_iff.mpr ⟨_, htype, bind_eq_ok_iff.mpr ⟨_, hflag, bind_eq_ok_iff.mpr
        ⟨_, hbest, bind_eq_ok_iff.mpr ⟨_, hworst, bind_eq_ok_iff.mpr ⟨_, hfunction,
          (if_pos hgiven).trans (bind_eq_ok_iff.mpr ⟨_, hcase, bind_eq_ok_iff.mpr
            ⟨_, hname, rfl⟩⟩)⟩⟩⟩⟩⟩,
        rfl, name_restoredForm form, rfl, fun kind => ?_, fun kind => ?_⟩
      · cases kind <;> rfl
      · cases kind <;> rfl

/-- **Extractions from studies come back** from the row that is made of them, whether it is read at
    once or has been kept. -/
theorem extraction_kept {installed : Bool} {subject : Value} {classification name : String}
    {services : Services} {log : Log} {x : Extraction}
    (hx : ((Study.conduct installed subject classification name).outcome services log).1
      = .ok (.extracted x)) (context : Context) :
    ∃ columns, row context x.toRecord none = .ok columns ∧
      (∃ y, extraction (.dict columns) = .ok y ∧ y.IsLike x) ∧
      ∀ stored, Keeps stored columns → ∃ y, extraction stored = .ok y ∧ y.IsLike x := by
  obtain ⟨s, -, -, finding, data, -, -, hread⟩ := Study.conduct_eq_extracted_iff.mp hx
  have hcoherent := Extraction.isCoherent_ofData hread
  exact ⟨_, row_extraction context x, extraction_of_keeps hcoherent (keeps_dict _),
    fun stored hkeeps => extraction_of_keeps hcoherent hkeeps⟩

/-- A model that tells nothing. -/
def tellingNothing : Nat → Except String Reply := fun _ =>
  .ok ⟨.endTurn, [.text (.str "\x7b\x7d")]⟩

/-- An extraction without any equations comes back. -/
theorem extraction_kept_blank : ∃ x columns y,
    ((Study.conduct true .none "iterative" "f").outcome ⟨some tellingNothing, none⟩
      Log.empty).1 = .ok (.extracted x) ∧
    row ⟨"f()", .none, usualCost⟩ x.toRecord none = .ok columns ∧
    extraction (.dict columns) = .ok y ∧ y.IsLike x := by
  obtain ⟨study, hstudy, hextracted⟩ := exists_eq_ok_of_any
    (x := ((Study.conduct true .none "iterative" "f").outcome ⟨some tellingNothing, none⟩
      Log.empty).1) (p := Study.isExtracted) (by decide +kernel)
  cases study with
  | failed error type => cases hextracted
  | extracted x =>
    obtain ⟨columns, hrow, ⟨y, hy, hlike⟩, -⟩ := extraction_kept hstudy ⟨"f()", .none, usualCost⟩
    exact ⟨x, columns, y, hstudy, hrow, hy, hlike⟩

/-! ### Bounds that are read -/

theorem isNumberless_toRecord (c : Complexity) : Json.IsNumberless c.toRecord := by
  have hkeys : ["O", "Omega", "Theta", "is_tight_bound", "method", "steps",
      "explanation"].Nodup := by decide
  refine .dict hkeys ?_
  simp only [forall_mem_cons]
  refine ⟨.str _, .str _, ?_, .bool _, .str _, .list ?_, .str _, by simp⟩
  · cases c.tight with
    | none => exact .none
    | some s => exact .str s
  · intro v hv
    obtain ⟨s, -, rfl⟩ := mem_map.mp hv
    exact .str s

/-- The whole of the bounds is read back from their text. -/
theorem wholeOf_write (c : Complexity) :
    wholeOf (.str (Json.write Json.escapedStyle c.toRecord)) = c.toRecord := by
  have hread : Json.read (Json.write Json.escapedStyle c.toRecord) = .ok c.toRecord :=
    Json.read_write (isNumberless_toRecord c) true
  have hnonempty : (Json.write Json.escapedStyle c.toRecord).isEmpty = false := by
    rw [Bool.eq_false_iff]
    intro hempty
    rw [String.isEmpty_iff.mp hempty] at hread
    cases hread
  rw [wholeOf, hread, hnonempty]
  rfl

variable {r : Resolution}

/-- Upper bounds tell which cases come back. -/
theorem upper_kept (hkeeps : Keeps stored (keptColumns context x r.complexity?))
    (kind : CaseKind) : ∃ v, stored.entryOr ((columnsFor kind).bounds ++ "_O") .none = .ok v ∧
      v.isTrue = (r.restored? kind).isSome := by
  rw [Resolution.restored?]
  cases hcase : r.case? kind with
  | none =>
    have hnone : r.complexity? kind = none := by rw [Resolution.complexity?, hcase]; rfl
    exact ⟨_, hkeeps.entryOr_blank (mem_columnNames_of_bounds kind mem_cons_self)
      (lookup_upper_eq_none hnone), rfl⟩
  | some c =>
    have hsome := Resolution.complexity?_of_case? hcase
    refine ⟨_, hkeeps.entryOr .none (mem_boundsColumns hsome mem_cons_self), ?_⟩
    rw [bind_some, CaseResolution.restored?, Bool.eq_iff_iff, isTrue_str]
    split <;> simp [*]

/-- **Bounds come back** as they are restored. -/
theorem restoredBounds_kept (hr : r.IsOf x)
    (hkeeps : Keeps stored (keptColumns context x r.complexity?)) (kind : CaseKind) :
    restoredBounds stored (columnsFor kind)
      = .ok (((r.restored? kind).map CaseResolution.toRecord).map fun v =>
          ((columnsFor kind).bounds, v)).toList := by
  obtain ⟨v, hupper, htrue⟩ := upper_kept hkeeps kind
  refine bind_eq_ok_iff.mpr ⟨v, hupper, ?_⟩
  rw [htrue]
  cases hrestored : r.restored? kind with
  | none => rfl
  | some c' =>
    obtain ⟨c, hc, hc'⟩ := bind_eq_some_iff.mp hrestored
    rw [CaseResolution.restored?] at hc'
    split at hc'
    case isTrue => cases hc'
    case isFalse hne =>
      obtain ⟨hkind, explanation, htold⟩ := hr.told kind c hc
      have hsome := Resolution.complexity?_of_case? hc
      have hentry {name : String} {v : Value}
          (hmem : (name, v) ∈ boundsColumns kind c.complexity) : stored.entry name = .ok v :=
        hkeeps.entry (mem_boundsColumns hsome hmem)
      have hwhole : stored.entryOr (columnsFor kind).whole .none
          = .ok (.str (Json.write Json.escapedStyle c.complexity.toRecord)) :=
        hkeeps.entryOr .none (mem_boundsColumns hsome (by simp))
      have hequation : stored.entryOr (columnsFor kind).function (.str "")
          = .ok (.str c.equation) := by
        rw [function_columnsFor]
        exact hkeeps.entryOr _ (mem_equationColumns kind htold mem_cons_self)
      have hbounds : c.complexity.toRecord.entryOr "steps" (.list [])
            = .ok (.list (c.complexity.steps.map .str)) ∧
          c.complexity.toRecord.entryOr "explanation" (.str "")
            = .ok (.str c.complexity.explanation) := ⟨rfl, rfl⟩
      rw [← wholeOf_write] at hbounds
      refine bind_eq_ok_iff.mpr ⟨_, hwhole, bind_eq_ok_iff.mpr ⟨_, hequation,
        bind_eq_ok_iff.mpr ⟨.str c.complexity.upper, hentry (by simp),
        bind_eq_ok_iff.mpr ⟨.str c.complexity.lower, hentry (by simp),
        bind_eq_ok_iff.mpr ⟨.ofText? c.complexity.tight, hentry (by simp),
        bind_eq_ok_iff.mpr ⟨.str c.complexity.method, hentry (by simp),
        bind_eq_ok_iff.mpr ⟨_, hbounds.1, bind_eq_ok_iff.mpr ⟨_, hbounds.2, ?_⟩⟩⟩⟩⟩⟩⟩⟩
      have htight : (!(Value.ofText? c.complexity.tight).isNone) = c.complexity.tight.isSome := by
        cases c.complexity.tight <;> rfl
      rw [kind_columnsFor, htight, ← hkind, ← Option.some.inj hc']
      rfl

/-- The entries for the cases of a resolution. -/
def caseEntries (record : CaseKind → Option Value) (kinds : List CaseKind) :
    List (String × Value) :=
  kinds.flatMap fun kind => ((record kind).map fun v => ((columnsFor kind).bounds, v)).toList

theorem lookup_caseEntries (record : CaseKind → Option Value) (kinds : List CaseKind)
    (kind : CaseKind) : (caseEntries record kinds).lookup (columnsFor kind).bounds
      = if kind ∈ kinds then record kind else none := by
  induction kinds with
  | nil => rfl
  | cons k kinds ih =>
    rw [caseEntries, flatMap_cons, lookup_append]
    rw [caseEntries] at ih
    rw [ih]
    by_cases hk : kind = k
    · subst hk
      cases record kind <;> simp
    · have hne : ((columnsFor kind).bounds == (columnsFor k).bounds) = false := by
        rw [beq_eq_false_iff_ne]
        exact mt bounds_columnsFor_inj.mp hk
      cases record k <;> simp [lookup_cons, hne, hk]

theorem hasBounds_kept (hkeeps : Keeps stored (keptColumns context x r.complexity?)) :
    hasBounds stored = .ok r.comesBack := by
  obtain ⟨u, hu, hu'⟩ := upper_kept hkeeps .unified
  obtain ⟨b, hb, hb'⟩ := upper_kept hkeeps .best
  obtain ⟨w, hw, hw'⟩ := upper_kept hkeeps .worst
  refine bind_eq_ok_iff.mpr ⟨u, hu, bind_eq_ok_iff.mpr ⟨b, hb, bind_eq_ok_iff.mpr ⟨w, hw, ?_⟩⟩⟩
  rw [hu', hb', hw']
  rfl

/-- **Resolutions come back** with the bounds that are restored, if any is found. -/
theorem resolution_of_keeps (hr : r.IsOf x)
    (hkeeps : Keeps stored (keptColumns context x r.complexity?)) :
    ∃ v, resolution stored = .ok v ∧ ∀ kind, v.get? (columnsFor kind).bounds
      = if r.comesBack then (r.restored? kind).map CaseResolution.toRecord else none := by
  obtain ⟨hname, htype, hflag⟩ := hkeeps.base
  rw [← hr.flag] at hflag
  cases hback : r.comesBack with
  | false =>
    refine ⟨.none, bind_eq_ok_iff.mpr ⟨_, hasBounds_kept hkeeps, ?_⟩, fun kind => rfl⟩
    rw [hback]
    rfl
  | true =>
    let record := fun kind => (r.restored? kind).map CaseResolution.toRecord
    refine ⟨.dict ([("has_different_cases", .bool r.hasDifferentCases),
      ("algorithm_name", .str x.name), ("algorithm_type", .str x.form.name)]
        ++ caseEntries record CaseKind.all), ?_, fun kind => ?_⟩
    · refine bind_eq_ok_iff.mpr ⟨_, hasBounds_kept hkeeps, ?_⟩
      rw [hback]
      refine bind_eq_ok_iff.mpr ⟨_, hflag, bind_eq_ok_iff.mpr ⟨_, hname, bind_eq_ok_iff.mpr
        ⟨_, htype, ?_⟩⟩⟩
      cases hdifferent : r.hasDifferentCases with
      | false =>
        obtain ⟨hbest, hworst, haverage⟩ := hr.agreeing hdifferent
        refine bind_eq_ok_iff.mpr ⟨_, restoredBounds_kept hr hkeeps .unified, ?_⟩
        simp [pure_eq_ok_iff, caseEntries, CaseKind.all, record, Resolution.restored?, hbest,
          hworst, haverage]
      | true =>
        have hunified := hr.differing hdifferent
        refine bind_eq_ok_iff.mpr ⟨_, restoredBounds_kept hr hkeeps .best, bind_eq_ok_iff.mpr
          ⟨_, restoredBounds_kept hr hkeeps .worst, bind_eq_ok_iff.mpr
            ⟨_, restoredBounds_kept hr hkeeps .average, ?_⟩⟩⟩
        simp [pure_eq_ok_iff, caseEntries, CaseKind.all, record, Resolution.restored?, hunified]
    · have hheader : ([("has_different_cases", Value.bool r.hasDifferentCases),
          ("algorithm_name", .str x.name), ("algorithm_type", .str x.form.name)]).lookup
            (columnsFor kind).bounds = none := by
        cases kind <;> rfl
      show List.lookup _ _ = _
      rw [lookup_append, hheader, lookup_caseEntries, if_pos kind.mem_all]
      rfl

/-- **What is kept of bounds.**  The row for an extraction and its bounds can be made, and what
    is read from it again has the bounds of each case as they are restored.  These are all the
    bounds there were exactly if every case has an upper bound, is called tight if it has a bound
    from both sides, and the average case is not alone. -/
theorem resolution_kept_iff {x : Extraction} {services : Services} {log : Log} {r : Resolution}
    (hr : ((Resolver.resolveAll x).outcome services log).1 = .ok r) (context : Context) :
    ∃ columns, row context x.toRecord (some r.toRecord) = .ok columns ∧
      ∀ stored, Keeps stored columns → ∃ v, resolution stored = .ok v ∧
        (∀ kind, v.get? (columnsFor kind).bounds
          = if r.comesBack then (r.restored? kind).map CaseResolution.toRecord else none) ∧
        ((∀ kind, v.get? (columnsFor kind).bounds = (r.case? kind).map CaseResolution.toRecord) ↔
          r.IsKeepable) := by
  have hof := Resolution.isOf_of_resolveAll hr
  refine ⟨_, row_resolution context x hof.agreeing hof.differing, fun stored hkeeps => ?_⟩
  obtain ⟨v, hv, hrestored⟩ := resolution_of_keeps hof hkeeps
  refine ⟨v, hv, hrestored, ?_⟩
  simp only [hrestored]
  exact hof.restored_iff

/-- An extraction with one equation. -/
def onceLinear : Extraction :=
  ⟨"f", .recursive 1 "n = 0", false, some ⟨"T(n-1)", Extraction.allCases, ""⟩, none, none, none⟩

/-- A model that tells a bound from both sides, but does not call it tight. -/
def tellingBounds : Nat → Except String Reply := fun _ =>
  .ok ⟨.endTurn, [.text (.str "\x7b\"O\":\"n\",\"Theta\":\"n\"\x7d")]⟩

/-- What a row gets in other columns. -/
def otherColumns : List Column :=
  [("id", .int 1), ("best_case_O", .none), ("worst_case_O", .none), ("average_case_O", .none)]

/-- Such bounds do not come back as they were. -/
theorem resolution_kept_iff_untight : ∃ r columns v,
    ((Resolver.resolveAll onceLinear).outcome ⟨some tellingBounds, none⟩ Log.empty).1 = .ok r ∧
    row ⟨"f()", .none, usualCost⟩ onceLinear.toRecord (some r.toRecord) = .ok columns ∧
    Keeps (.dict (columns ++ otherColumns)) columns ∧
    resolution (.dict (columns ++ otherColumns)) = .ok v ∧
    ¬∀ kind, v.get? (columnsFor kind).bounds = (r.case? kind).map CaseResolution.toRecord := by
  obtain ⟨r, hr, huntight⟩ := exists_eq_ok_of_any
    (x := ((Resolver.resolveAll onceLinear).outcome ⟨some tellingBounds, none⟩ Log.empty).1)
    (p := fun r => r.unified.any fun c => c.complexity.isTight != c.complexity.tight.isSome)
    (by decide +kernel)
  obtain ⟨columns, hrow, hkept⟩ := resolution_kept_iff hr ⟨"f()", .none, usualCost⟩
  have hkeeps : Keeps (.dict (columns ++ otherColumns)) columns := by
    refine keeps_append columns fun column hcolumn hname => ?_
    simp only [otherColumns, List.mem_cons, List.not_mem_nil, or_false] at hcolumn
    rcases hcolumn with rfl | rfl | rfl | rfl
    · exact absurd hname (by decide)
    · rfl
    · rfl
    · rfl
  obtain ⟨v, hv, -, hiff⟩ := hkept _ hkeeps
  refine ⟨r, columns, v, hr, hrow, hkeeps, hv, fun hsame => ?_⟩
  cases hc : r.unified with
  | none =>
    rw [hc] at huntight
    cases huntight
  | some c =>
    rw [hc, Option.any_some, bne_iff_ne] at huntight
    exact huntight ((hiff.mp hsame).tight .unified c hc)

end Cache

end Ordo
