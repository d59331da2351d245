import Ordo.Cache.Restore
import Ordo.Cache.Row
import Ordo.Proofs.Cases
import Ordo.Proofs.JsonRoundTrip

namespace Ordo

/-!
# Rows of the cache

The row for an extraction has the equations of the cases in use; with bounds for them it also
has these.  No two columns have the same name, so each can be found again.

* `Extraction.told?`, `Resolution.complexity?` — what is kept of a case;
* `Cache.keptColumns`, `Cache.row_extraction`, `Cache.row_resolution` — what a row is made of;
* `Cache.nodup_keptColumns`, `Cache.lookup_keptColumns` — finding a column;
* `Cache.Keeps` — a row that is read again.
-/

open List

/-! ### Cases that are kept -/

/-- Every kind of case. -/
def CaseKind.all : List CaseKind := [.best, .worst, .average, .unified]

theorem CaseKind.mem_all (kind : CaseKind) : kind ∈ all := by
  cases kind <;> decide

/-- The equation and the explanation of a case. -/
def ExtractedCase.told (c : ExtractedCase) : String × String := (c.function, c.explanation)

/-- The equation and the explanation of a unified case. -/
def UnifiedCase.told (c : UnifiedCase) : String × String := (c.function, c.explanation)

/-- The equation and the explanation of the case of a kind, if the flag tells to use it. -/
def Extraction.told? (x : Extraction) : CaseKind → Option (String × String)
  | .best => if x.hasDifferentCases then x.best.map ExtractedCase.told else none
  | .worst => if x.hasDifferentCases then x.worst.map ExtractedCase.told else none
  | .average => if x.hasDifferentCases then x.average.map ExtractedCase.told else none
  | .unified => if x.hasDifferentCases then none else x.unified.map UnifiedCase.told

/-- The bounds of the case of a kind. -/
def Resolution.complexity? (r : Resolution) (kind : CaseKind) : Option Complexity :=
  (r.case? kind).map CaseResolution.complexity

theorem Resolution.complexity?_of_case? {r : Resolution} {kind : CaseKind} {c : CaseResolution}
    (hc : r.case? kind = some c) : r.complexity? kind = some c.complexity := by
  rw [complexity?, hc, Option.map_some]

namespace Cache

/-! ### The columns of a row -/

/-- The columns of a case. -/
def columnsFor : CaseKind → CaseColumns
  | .best => bestColumns
  | .worst => worstColumns
  | .average => averageColumns
  | .unified => unifiedColumns

/-- The start of the names of the columns for the equation of a case. -/
def equationStart : CaseKind → String
  | .best => "best_case"
  | .worst => "worst_case"
  | .average => "average_case"
  | .unified => "unified"

theorem function_columnsFor (kind : CaseKind) :
    (columnsFor kind).function = equationStart kind ++ "_function" := by
  cases kind <;> rfl

theorem kind_columnsFor (kind : CaseKind) : (columnsFor kind).kind = kind := by
  cases kind <;> rfl

variable {kind : CaseKind} {name : String} {column : Column}

theorem bounds_columnsFor_inj {kind' : CaseKind} :
    (columnsFor kind).bounds = (columnsFor kind').bounds ↔ kind = kind' := by
  cases kind <;> cases kind' <;> decide

/-- The columns for an equation and its explanation. -/
def equationColumns (kind : CaseKind) (told : String × String) : List Column :=
  [(equationStart kind ++ "_function", .str told.1),
    (equationStart kind ++ "_explanation", .str told.2)]

/-- The columns for bounds. -/
def boundsColumns (kind : CaseKind) (c : Complexity) : List Column :=
  [((columnsFor kind).bounds ++ "_O", .str c.upper),
    ((columnsFor kind).bounds ++ "_Omega", .str c.lower),
    ((columnsFor kind).bounds ++ "_Theta", .ofText? c.tight),
    ((columnsFor kind).bounds ++ "_method", .str c.method),
    ((columnsFor kind).whole, .str (Json.write Json.escapedStyle c.toRecord))]

/-- The columns that every row has. -/
def baseColumns (context : Context) (x : Extraction) : List Column :=
  [("pseudocode_hash", .str (key context.pseudocode)), ("pseudocode", .str context.pseudocode),
    ("natural_description", context.description), ("algorithm_name", .str x.name),
    ("algorithm_type", .str x.form.name), ("has_different_cases", .bool x.hasDifferentCases),
    ("api_cost_usd", context.cost)]

/-- The columns for an extraction with bounds for some of its cases. -/
def keptColumns (context : Context) (x : Extraction) (bounds : CaseKind → Option Complexity) :
    List Column :=
  baseColumns context x
    ++ CaseKind.all.flatMap (fun kind => (x.told? kind).elim [] (equationColumns kind))
    ++ CaseKind.all.flatMap fun kind => (bounds kind).elim [] (boundsColumns kind)

theorem checkItems_of_forall {values : List Value} (h : ∀ v ∈ values, checkPlain v = .ok ()) :
    checkPlain.checkItems values = .ok () := by
  induction values with
  | nil => rfl
  | cons v values ih =>
    rw [forall_mem_cons] at h
    exact bind_eq_ok_iff.mpr ⟨(), h.1, ih h.2⟩

/-- All fields of bounds can be written as JSON. -/
theorem fieldsText_toRecord (c : Complexity) :
    fieldsText [("O", .str c.upper), ("Omega", .str c.lower), ("Theta", .ofText? c.tight),
      ("is_tight_bound", .bool c.isTight), ("method", .str c.method),
      ("steps", .list (c.steps.map .str)), ("explanation", .str c.explanation)]
      = .ok (Json.write Json.escapedStyle c.toRecord) := by
  have hsteps : checkPlain (.list (c.steps.map .str)) = .ok () := by
    refine checkItems_of_forall fun v hv => ?_
    obtain ⟨s, -, rfl⟩ := mem_map.mp hv
    rfl
  have htight : checkPlain (.ofText? c.tight) = .ok () := by
    cases c.tight <;> rfl
  refine bind_eq_ok_iff.mpr ⟨(), checkItems_of_forall ?_, rfl⟩
  simp only [map_cons, map_nil, forall_mem_cons]
  exact ⟨rfl, rfl, htight, rfl, rfl, hsteps, rfl, by simp⟩

theorem boundsOf_toRecord (kind : CaseKind) (c : CaseResolution) :
    boundsOf (columnsFor kind).bounds (columnsFor kind).whole c.toRecord
      = .ok (boundsColumns kind c.complexity) := by
  simp only [boundsOf, bind_eq_ok_iff]
  exact ⟨_, rfl, _, rfl, _, rfl, _, rfl, _, rfl, _, rfl, _, rfl, _, rfl, _,
    fieldsText_toRecord c.complexity, rfl⟩

variable {α : Type} {r : Resolution} {v : Value}

theorem columnsIfPresent_ofOption {record : Value} {toRecord : α → Value}
    {case : Option α} {f : Value → Except AccessError (List Column)} {g : α → List Column}
    (hfield : record.recordField name = .ok (.ofOption toRecord case))
    (hpresent : ∀ c, (toRecord c).isPresent = true) (hf : ∀ c, f (toRecord c) = .ok (g c)) :
    columnsIfPresent record name f = .ok (case.elim [] g) := by
  rw [columnsIfPresent, hfield]
  cases case with
  | none => rfl
  | some c =>
    show (if (toRecord c).isPresent then f (toRecord c) else return []) = _
    rw [hpresent c, hf c]
    rfl

/-- The fields of an extraction that are kept. -/
theorem recordField_extraction (x : Extraction) :
    x.toRecord.recordField "algorithm_name" = .ok (.str x.name) ∧
    x.toRecord.recordField "algorithm_type" = .ok (.str x.form.name) ∧
    x.toRecord.recordField "has_different_cases" = .ok (.bool x.hasDifferentCases) ∧
    x.toRecord.recordField "unified_case" = .ok (.ofOption UnifiedCase.toRecord x.unified) ∧
    x.toRecord.recordField "best_case" = .ok (.ofOption ExtractedCase.toRecord x.best) ∧
    x.toRecord.recordField "worst_case" = .ok (.ofOption ExtractedCase.toRecord x.worst) ∧
    x.toRecord.recordField "average_case" = .ok (.ofOption ExtractedCase.toRecord x.average) := by
  obtain ⟨name, _ | _, flag, unified, best, worst, average⟩ := x <;>
    exact ⟨rfl, rfl, rfl, rfl, rfl, rfl, rfl⟩

theorem analysisColumns_toRecord (x : Extraction) : analysisColumns x.toRecord
    = .ok (CaseKind.all.flatMap fun kind => (x.told? kind).elim [] (equationColumns kind)) := by
  obtain ⟨-, -, hflag, hunified, hbest, hworst, haverage⟩ := recordField_extraction x
  refine bind_eq_ok_iff.mpr ⟨_, hflag, ?_⟩
  have hcase {name : String} {case : Option ExtractedCase} (kind : CaseKind)
      (hfield : x.toRecord.recordField name = .ok (.ofOption ExtractedCase.toRecord case))
      (hname : equationStart kind = name) :
      columnsIfPresent x.toRecord name (equationOf name)
        = .ok ((case.map ExtractedCase.told).elim [] (equationColumns kind)) := by
    rw [columnsIfPresent_ofOption hfield (fun _ => rfl)
      (g := fun c => equationColumns kind c.told) (fun c => by rw [← hname]; rfl)]
    cases case <;> rfl
  cases hx : x.hasDifferentCases with
  | false =>
    simp only [Value.isPresent, Value.isTrue, Bool.false_eq_true, ↓reduceIte]
    rw [columnsIfPresent_ofOption hunified (fun _ => rfl)
      (g := fun c => equationColumns .unified c.told) (fun _ => rfl)]
    simp only [CaseKind.all, Extraction.told?, hx]
    cases x.unified <;> rfl
  | true =>
    simp only [Value.isPresent, Value.isTrue, ↓reduceIte, CaseKind.all, Extraction.told?, hx]
    refine bind_eq_ok_iff.mpr ⟨_, hcase .best hbest rfl, bind_eq_ok_iff.mpr
      ⟨_, hcase .worst hworst rfl, bind_eq_ok_iff.mpr ⟨_, hcase .average haverage rfl, ?_⟩⟩⟩
    simp [pure_eq_ok_iff]

theorem resolvedCase_toRecord (r : Resolution) (kind : CaseKind) :
    resolvedCase r.toRecord (columnsFor kind).bounds (columnsFor kind).whole
      = .ok ((r.complexity? kind).elim [] (boundsColumns kind)) := by
  have hfield : r.toRecord.recordField (columnsFor kind).bounds
      = .ok (.ofOption CaseResolution.toRecord (r.case? kind)) := by
    cases kind <;> rfl
  rw [resolvedCase, columnsIfPresent_ofOption hfield (fun _ => rfl) (boundsOf_toRecord kind),
    Resolution.complexity?]
  cases r.case? kind <;> rfl

theorem resolutionColumns_toRecord
    (hagreeing : r.hasDifferentCases = false → r.best = none ∧ r.worst = none ∧ r.average = none)
    (hdiffering : r.hasDifferentCases = true → r.unified = none) :
    resolutionColumns r.toRecord = .ok (CaseKind.all.flatMap fun kind =>
      (r.complexity? kind).elim [] (boundsColumns kind)) := by
  refine bind_eq_ok_iff.mpr ⟨.bool r.hasDifferentCases, rfl, ?_⟩
  cases hr : r.hasDifferentCases with
  | false =>
    obtain ⟨hbest, hworst, haverage⟩ := hagreeing hr
    simp only [Value.isPresent, Value.isTrue, Bool.false_eq_true, ↓reduceIte]
    refine (resolvedCase_toRecord r .unified).trans ?_
    simp [CaseKind.all, Resolution.complexity?, Resolution.case?, hbest, hworst, haverage]
  | true =>
    have hunified := hdiffering hr
    simp only [Value.isPresent, Value.isTrue, ↓reduceIte]
    refine bind_eq_ok_iff.mpr ⟨_, resolvedCase_toRecord r .best, bind_eq_ok_iff.mpr
      ⟨_, resolvedCase_toRecord r .worst, bind_eq_ok_iff.mpr
        ⟨_, resolvedCase_toRecord r .average, ?_⟩⟩⟩
    simp [pure_eq_ok_iff, CaseKind.all, Resolution.complexity?, Resolution.case?, hunified]

/-- **The row for an extraction** has the equations of the cases in use. -/
theorem row_extraction (context : Context) (x : Extraction) :
    row context x.toRecord none = .ok (keptColumns context x fun _ => none) := by
  obtain ⟨hname, htype, hflag, -⟩ := recordField_extraction x
  simp only [row, hname, htype, hflag, analysisColumns_toRecord]
  rfl

/-- **The row for a resolution** also has its bounds. -/
theorem row_resolution (context : Context) (x : Extraction)
    (hagreeing : r.hasDifferentCases = false → r.best = none ∧ r.worst = none ∧ r.average = none)
    (hdiffering : r.hasDifferentCases = true → r.unified = none) :
    row context x.toRecord (some r.toRecord)
      = .ok (keptColumns context x r.complexity?) := by
  obtain ⟨hname, htype, hflag, -⟩ := recordField_extraction x
  simp only [row, hname, htype, hflag, analysisColumns_toRecord,
    resolutionColumns_toRecord hagreeing hdiffering]
  rfl

/-! ### Names of columns -/

/-- The names of the columns that every row has. -/
def baseNames : List String :=
  ["pseudocode_hash", "pseudocode", "natural_description", "algorithm_name", "algorithm_type",
    "has_different_cases", "api_cost_usd"]

/-- The names of the columns for an equation. -/
def equationNames (kind : CaseKind) : List String :=
  [equationStart kind ++ "_function", equationStart kind ++ "_explanation"]

/-- The names of the columns for bounds. -/
def boundsNames (kind : CaseKind) : List String :=
  [(columnsFor kind).bounds ++ "_O", (columnsFor kind).bounds ++ "_Omega",
    (columnsFor kind).bounds ++ "_Theta", (columnsFor kind).bounds ++ "_method",
    (columnsFor kind).whole]

/-- The names of all columns that a row may have. -/
def columnNames : List String :=
  baseNames ++ CaseKind.all.flatMap equationNames ++ CaseKind.all.flatMap boundsNames

/-- No two columns have the same name. -/
theorem nodup_columnNames : columnNames.Nodup := by
  decide +kernel

theorem mem_columnNames_of_equation (kind : CaseKind) (h : name ∈ equationNames kind) :
    name ∈ columnNames :=
  mem_append_left _ (mem_append_right _
    (mem_flatMap.mpr ⟨kind, kind.mem_all, h⟩))

theorem mem_columnNames_of_bounds (kind : CaseKind) (h : name ∈ boundsNames kind) :
    name ∈ columnNames :=
  mem_append_right _ (mem_flatMap.mpr ⟨kind, kind.mem_all, h⟩)

/-- The names of columns that may be absent are at most those of the columns. -/
theorem names_flatMap_sublist (columns : CaseKind → α → List Column)
    (names : CaseKind → List String) (h : ∀ kind a, (columns kind a).map Prod.fst = names kind)
    (case : CaseKind → Option α) (kinds : List CaseKind) :
    ((kinds.flatMap fun kind => (case kind).elim [] (columns kind)).map Prod.fst).Sublist
      (kinds.flatMap names) := by
  induction kinds with
  | nil => exact List.Sublist.slnil
  | cons kind kinds ih =>
    rw [flatMap_cons, flatMap_cons, map_append]
    refine List.Sublist.append ?_ ih
    cases case kind with
    | none => exact nil_sublist _
    | some a => rw [Option.elim_some, h kind a]

variable {context : Context} {x : Extraction} {bounds : CaseKind → Option Complexity}

/-- The names in a row are some of all names, in the same order. -/
theorem nodup_keptColumns : ((keptColumns context x bounds).map Prod.fst).Nodup := by
  have hequations := names_flatMap_sublist equationColumns equationNames (fun _ _ => rfl)
    x.told? CaseKind.all
  have hbounds := names_flatMap_sublist boundsColumns boundsNames (fun _ _ => rfl)
    bounds CaseKind.all
  refine nodup_columnNames.sublist ?_
  rw [keptColumns, map_append, map_append]
  exact ((List.Sublist.refl baseNames).append hequations).append hbounds

theorem mem_keptColumns_iff : column ∈ keptColumns context x bounds ↔
    column ∈ baseColumns context x ∨
      (∃ kind told, x.told? kind = some told ∧ column ∈ equationColumns kind told) ∨
      ∃ kind c, bounds kind = some c ∧ column ∈ boundsColumns kind c := by
  have hpart {α : Type} {columns : CaseKind → α → List Column} {case : CaseKind → Option α} :
      column ∈ CaseKind.all.flatMap (fun kind => (case kind).elim [] (columns kind)) ↔
        ∃ kind a, case kind = some a ∧ column ∈ columns kind a := by
    rw [mem_flatMap]
    refine exists_congr fun kind => ?_
    cases hcase : case kind with
    | none => simp
    | some a => simp [kind.mem_all]
  rw [keptColumns, mem_append, mem_append, hpart, hpart, or_assoc]

theorem mem_equationColumns (kind : CaseKind) {told : String × String}
    (htold : x.told? kind = some told) (hmem : column ∈ equationColumns kind told) :
    column ∈ keptColumns context x bounds :=
  mem_keptColumns_iff.mpr (.inr (.inl ⟨kind, told, htold, hmem⟩))

theorem mem_boundsColumns {c : Complexity} (hc : bounds kind = some c)
    (hmem : column ∈ boundsColumns kind c) : column ∈ keptColumns context x bounds :=
  mem_keptColumns_iff.mpr (.inr (.inr ⟨kind, c, hc, hmem⟩))

theorem mem_baseColumns (hmem : column ∈ baseColumns context x) :
    column ∈ keptColumns context x bounds :=
  mem_keptColumns_iff.mpr (.inl hmem)

/-- A column of a row holds what is kept in it. -/
theorem lookup_keptColumns (hmem : (name, v) ∈ keptColumns context x bounds) :
    (keptColumns context x bounds).lookup name = some v := by
  obtain ⟨before, after, hsplit⟩ := append_of_mem hmem
  refine lookup_eq_some_iff.mpr ⟨before, after, hsplit, fun column hcolumn => ?_⟩
  have hnodup : ((keptColumns context x bounds).map Prod.fst).Nodup := nodup_keptColumns
  rw [hsplit] at hnodup
  rw [bne_iff_ne]
  intro hname
  refine Json.notMem_of_nodup_append_cons hnodup ?_
  show name ∈ before.map Prod.fst
  rw [hname]
  exact mem_map_of_mem hcolumn

/-- A column is in a row only if what it is for is kept. -/
theorem lookup_eq_none (hbase : name ∉ baseNames)
    (hequation : ∀ kind, name ∈ equationNames kind → x.told? kind = none)
    (hbounds : ∀ kind, name ∈ boundsNames kind → bounds kind = none) :
    (keptColumns context x bounds).lookup name = none := by
  rw [lookup_eq_none_iff]
  rintro ⟨name', v⟩ hmem
  rw [bne_iff_ne]
  rintro rfl
  rcases mem_keptColumns_iff.mp hmem with hmem | ⟨kind, told, htold, hmem⟩ | ⟨kind, c, hc, hmem⟩
  · exact hbase (mem_map_of_mem (f := Prod.fst) hmem)
  · cases htold.symm.trans (hequation kind (mem_map_of_mem (f := Prod.fst) hmem))
  · cases hc.symm.trans (hbounds kind (mem_map_of_mem (f := Prod.fst) hmem))

theorem lookup_upper_eq_none (h : bounds kind = none) :
    (keptColumns context x bounds).lookup ((columnsFor kind).bounds ++ "_O") = none := by
  refine lookup_eq_none (by cases kind <;> decide) (fun k hk => ?_) fun k hk => ?_
  · exact absurd hk (by cases kind <;> cases k <;> decide)
  · have hkind : k = kind := by
      revert hk
      cases kind <;> cases k <;> decide
    rw [hkind, h]

theorem lookup_function_eq_none (h : x.told? kind = none) :
    (keptColumns context x bounds).lookup (equationStart kind ++ "_function") = none := by
  refine lookup_eq_none (by cases kind <;> decide) (fun k hk => ?_) fun k hk => ?_
  · have hkind : k = kind := by
      revert hk
      cases kind <;> cases k <;> decide
    rw [hkind, h]
  · exact absurd hk (by cases kind <;> cases k <;> decide)

/-! ### Rows that are read -/

/-- A row as it is read again: a column that is kept holds what was put there, and any other
    column that there may be is absent or holds nothing.  A row may get further columns. -/
structure Keeps (stored : Value) (columns : List Column) : Prop where
  dict : stored.isDict = true
  kept : ∀ name v, columns.lookup name = some v → stored.get? name = some v
  blank : ∀ name ∈ columnNames, columns.lookup name = none →
    stored.get? name = none ∨ stored.get? name = some .none

variable (s : String) (columns : List Column)

/-- What is kept may be read with nothing in the other columns, and with further ones. -/
theorem keeps_append {more : List Column}
    (hmore : ∀ column ∈ more, column.1 ∈ columnNames → column.2 = .none) :
    Keeps (.dict (columns ++ more)) columns := by
  refine ⟨rfl, fun name v hv => ?_, fun name hname hblank => ?_⟩
  · show List.lookup name (columns ++ more) = some v
    rw [lookup_append, hv, Option.some_or]
  · show List.lookup name (columns ++ more) = none ∨ List.lookup name (columns ++ more) = some _
    rw [lookup_append, hblank, Option.none_or]
    cases hv : more.lookup name with
    | none => exact .inl rfl
    | some v =>
      obtain ⟨before, after, rfl, -⟩ := lookup_eq_some_iff.mp hv
      have hnone := hmore (name, v) (by simp) hname
      exact .inr (congrArg some hnone)

/-- What is kept can be read as it is. -/
theorem keeps_dict : Keeps (.dict columns) columns := by
  have hkeeps : Keeps (.dict (columns ++ [])) columns := keeps_append columns (by simp)
  rwa [append_nil] at hkeeps

variable {stored : Value}

theorem Keeps.entry (hkeeps : Keeps stored (keptColumns context x bounds))
    (hmem : (name, v) ∈ keptColumns context x bounds) : stored.entry name = .ok v := by
  have hget := hkeeps.kept name v (lookup_keptColumns hmem)
  cases stored with
  | dict es =>
    rw [Value.entry, show es.lookup name = some v from hget]
  | _ => cases hget

/-- The columns of every row. -/
theorem Keeps.base (hkeeps : Keeps stored (keptColumns context x bounds)) :
    stored.entry "algorithm_name" = .ok (.str x.name) ∧
      stored.entry "algorithm_type" = .ok (.str x.form.name) ∧
      stored.entry "has_different_cases" = .ok (.bool x.hasDifferentCases) :=
  ⟨hkeeps.entry (mem_baseColumns (by simp [baseColumns])),
    hkeeps.entry (mem_baseColumns (by simp [baseColumns])),
    hkeeps.entry (mem_baseColumns (by simp [baseColumns]))⟩

theorem Keeps.entryOr (default : Value) (hkeeps : Keeps stored (keptColumns context x bounds))
    (hmem : (name, v) ∈ keptColumns context x bounds) : stored.entryOr name default = .ok v := by
  rw [Value.entryOr_eq_ok_iff, hkeeps.kept name v (lookup_keptColumns hmem)]
  exact ⟨hkeeps.dict, rfl⟩

theorem Keeps.entryOr_blank {columns : List Column} (hkeeps : Keeps stored columns)
    (hname : name ∈ columnNames) (hblank : columns.lookup name = none) :
    stored.entryOr name .none = .ok .none := by
  rw [Value.entryOr_eq_ok_iff]
  refine ⟨hkeeps.dict, ?_⟩
  rcases hkeeps.blank name hname hblank with h | h <;> rw [h] <;> rfl

theorem isTrue_str : (Value.str s).isTrue = true ↔ s ≠ "" := by
  simp [Value.isTrue]

theorem asText_orElse_str : ((Value.str s).orElse (.str "")).asText = s := by
  rw [Value.orElse]
  split
  case isTrue => rfl
  case isFalse h =>
    rw [isTrue_str, not_not] at h
    exact h.symm

theorem Keeps.textColumn {s : String} (hkeeps : Keeps stored (keptColumns context x bounds))
    (hmem : (name, .str s) ∈ keptColumns context x bounds) : textColumn stored name = .ok s := by
  refine bind_eq_ok_iff.mpr ⟨_, hkeeps.entry hmem, ?_⟩
  rw [asText_orElse_str]
  rfl

end Cache

end Ordo
