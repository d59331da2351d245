import Ordo.Proofs.Assessments

namespace Ordo

/-!
# Failures of the cache

Nobody but the reader of the printed lines can tell a cache that fails from an empty one.

* `Assessment.rebuilt` — the assessment in a row of the cache;
* `Assessment.Restores` — a cache that answers with a row that can be counted and rebuilt;
* `Assessment.fromCache_eq_some_iff` — only then is the assessment taken from the cache;
* `assess_cache_failures_invisible` — else all is as with an empty cache.
-/

open Session

namespace Assessment

/-! ### Rows -/

/-- The drawing that belongs to a row: the one in it, or that of the text in it. -/
def rowDrawing (row : Value) : Except AccessError Value := do
  let kept ← row.entryOr "mermaid_diagram" .none
  if kept.isNone then
    let text ← row.entry "pseudocode"
    return .str ((Diagram.ofKept text).toOption.getD Diagram.fallback)
  else return kept

/-- The assessment in a row. -/
def rebuilt (row : Value) : Except AccessError Assessment := do
  let drawing ← rowDrawing row
  let extraction ← Cache.extraction row
  let resolution ← Cache.resolution row
  let name ← row.entry "algorithm_name"
  return {
    tree := .dict [("from_cache", .bool true), ("algorithm_name", name)]
    outline := "[Desde caché]"
    classification := .dict [("from_cache", .bool true)]
    study := some (.extracted extraction)
    resolution := resolution
    drawing := drawing }

/-- The answers of a cache from which an assessment is restored. -/
structure Restores (answers : Nat → Except String Value) (row : Value) (a : Assessment) : Prop where
  /-- There is a row. -/
  found : ∃ rows, answers 0 = .ok rows ∧ firstRow rows = .ok (some row)
  /-- One more request of it can be counted. -/
  counted : ∃ times more, row.entry "times_requested" = .ok times ∧ times.successor = .ok more
  /-- It has an identifier. -/
  identified : ∃ id, row.entry "id" = .ok id
  /-- The cache takes the new count. -/
  updated : ∃ answer, answers 1 = .ok answer
  /-- The assessment can be rebuilt. -/
  holds : rebuilt row = .ok a

example : ∃ row a, Restores (fun _ => .ok (.list [row])) row a :=
  ⟨.dict [("id", .int 7), ("times_requested", .int 1), ("algorithm_name", .str "f"),
    ("algorithm_type", .str "RECURSIVE"), ("has_different_cases", .bool false),
    ("unified_function", .str "T(n) = T(n-1) + 1"), ("unified_explanation", .none),
    ("mermaid_diagram", .str "flowchart TD")], _,
    ⟨_, rfl, rfl⟩, ⟨_, _, rfl, rfl⟩, ⟨_, rfl⟩, ⟨_, rfl⟩, rfl⟩

section

variable {model : Option (Nat → Except String Reply)} {answers : Nat → Except String Value}
  {log : Log} {row : Value} {text : String}

variable {services : Services} {a : Assessment}

/-- A row is given its drawing, whether or not the cache takes it. -/
theorem keptDrawing_eq_ok_iff {id drawing : Value} (hid : row.entry "id" = .ok id) :
    ((keptDrawing row).outcome services log).1 = .ok drawing ↔ rowDrawing row = .ok drawing := by
  unfold keptDrawing rowDrawing
  simp only [outcome_bind_eq_ok_iff, outcome_ofData, mapError_eq_ok_iff, bind_eq_ok_iff]
  refine exists_congr fun kept => and_congr_right fun _ => ?_
  by_cases hkept : kept.isNone = true
  · rw [if_pos hkept, if_pos hkept]
    simp only [outcome_bind_eq_ok_iff, outcome_ofData, mapError_eq_ok_iff, bind_eq_ok_iff,
      Diagram.outcome_orFallback, outcome_attempt, hid, Except.ok.injEq, exists_eq_left']
    refine exists_congr fun text => and_congr_right fun _ => ?_
    rw [pure_eq_ok_iff]
    split <;> exact ⟨Except.ok.inj, congrArg Except.ok⟩
  · rw [if_neg hkept, if_neg hkept, outcome_pure, pure_eq_ok_iff, Except.ok.injEq]

/-- A row gives an assessment if it can be counted and rebuilt. -/
theorem ofRow_eq_ok_iff : ((ofRow row).outcome ⟨model, some answers⟩ log).1 = .ok a ↔
      (∃ times more, row.entry "times_requested" = .ok times ∧ times.successor = .ok more) ∧
      (∃ id, row.entry "id" = .ok id) ∧ (∃ answer, answers log.queries.length = .ok answer) ∧
      rebuilt row = .ok a := by
  unfold ofRow rebuilt
  simp only [outcome_bind_eq_ok_iff, outcome_ofData, mapError_eq_ok_iff, outcome_lookup,
    bind_eq_ok_iff, pure_eq_ok_iff, outcome_pure, Except.ok.injEq]
  constructor
  · rintro ⟨times, htimes, more, hmore, id, hid, answer, hanswer, drawing, hdrawing, h⟩
    exact ⟨⟨times, more, htimes, hmore⟩, ⟨id, hid⟩, ⟨answer, hanswer⟩, drawing,
      (keptDrawing_eq_ok_iff hid).mp hdrawing, h⟩
  · rintro ⟨⟨times, more, htimes, hmore⟩, ⟨id, hid⟩, ⟨answer, hanswer⟩, drawing, hdrawing, h⟩
    exact ⟨times, htimes, more, hmore, id, hid, answer, hanswer, drawing,
      (keptDrawing_eq_ok_iff hid).mpr hdrawing, h⟩

/-- What is found at the first query of a cache. -/
theorem kept_eq_some_iff : ((kept text).outcome ⟨model, some answers⟩ Log.empty).1 = .ok (some a) ↔
      ∃ row, Restores answers row a := by
  unfold kept
  simp only [outcome_bind_eq_ok_iff, outcome_lookup, outcome_ofData, mapError_eq_ok_iff]
  constructor
  · rintro ⟨rows, hrows, _ | row, hrow, h⟩
    · cases h
    · obtain ⟨_, hofRow, ⟨⟩⟩ := outcome_map_eq_ok_iff.mp h
      obtain ⟨hcounted, hid, hupdated, hrebuilt⟩ := ofRow_eq_ok_iff.mp hofRow
      exact ⟨row, ⟨rows, hrows, hrow⟩, hcounted, hid, hupdated, hrebuilt⟩
  · rintro ⟨row, ⟨rows, hrows, hrow⟩, hcounted, hid, hupdated, hrebuilt⟩
    refine ⟨rows, hrows, some row, hrow, ?_⟩
    exact outcome_map_eq_ok_iff.mpr
      ⟨a, ofRow_eq_ok_iff.mpr ⟨hcounted, hid, hupdated, hrebuilt⟩, rfl⟩

/-- What `fromCache` gives is what `kept` gives. -/
theorem fromCache_eq_some_iff_kept : ((fromCache text).outcome services log).1 = .ok (some a) ↔
      ((kept text).outcome services log).1 = .ok (some a) := by
  unfold fromCache
  simp only [outcome_bind_eq_ok_iff, outcome_attempt, Except.ok.injEq, exists_eq_left']
  cases ((kept text).outcome services log).1 with
  | ok r => exact Iff.rfl
  | error f => constructor <;> intro h <;> cases h

/-- **An assessment is taken from the cache** if the cache has a row that can be counted and
    rebuilt. -/
theorem fromCache_eq_some_iff {cache : Option (Nat → Except String Value)} :
    ((fromCache text).outcome ⟨model, cache⟩ Log.empty).1 = .ok (some a) ↔
      ∃ answers row, cache = some answers ∧ Restores answers row a := by
  rw [fromCache_eq_some_iff_kept]
  cases cache with
  | none =>
    constructor
    · rintro ⟨⟩
    · rintro ⟨_, _, ⟨⟩, -⟩
  | some answers =>
    simp only [Option.some.injEq, exists_eq_left', exists_and_left]
    exact kept_eq_some_iff

end

/-! ### The model is not asked -/

theorem isQuiet_keptDrawing (row : Value) : IsQuiet (keptDrawing row) := by
  refine (isQuiet_ofData _).bind fun kept => ?_
  split
  · refine (isQuiet_ofData _).bind fun text => IsQuiet.bind ?_ fun drawing =>
      (isQuiet_ofData _).bind fun id => (isQuiet_lookup _).attempt.bind fun r => ?_
    · cases Diagram.ofKept text with
      | ok drawing => exact isQuiet_pure _
      | error f => exact (isQuiet_sayLine _).bind fun _ => isQuiet_pure _
    · cases r with
      | ok answer => exact isQuiet_pure _
      | error f => exact (isQuiet_sayLine _).bind fun _ => isQuiet_pure _
  · exact isQuiet_pure _

theorem isQuiet_ofRow (row : Value) : IsQuiet (ofRow row) :=
  (isQuiet_ofData _).bind fun _ => (isQuiet_ofData _).bind fun _ =>
    (isQuiet_ofData _).bind fun _ => (isQuiet_lookup _).bind fun _ =>
    (isQuiet_keptDrawing row).bind fun _ => (isQuiet_ofData _).bind fun _ =>
    (isQuiet_ofData _).bind fun _ => (isQuiet_ofData _).bind fun _ => isQuiet_pure _

/-- The model is not asked for what may be in the cache. -/
theorem isQuiet_fromCache (text : String) : IsQuiet (fromCache text) := by
  refine IsQuiet.bind (IsQuiet.attempt ?_) fun r => ?_
  · refine (isQuiet_lookup _).bind fun rows => (isQuiet_ofData _).bind fun row => ?_
    cases row with
    | none => exact isQuiet_pure _
    | some row => exact (isQuiet_ofRow row).map some
  · cases r with
    | ok a => exact isQuiet_pure _
    | error f => exact (isQuiet_sayLine _).bind fun _ => isQuiet_pure _

end Assessment

open Assessment

/-- **Failures of the cache are invisible.**  Whatever the model replies and whatever the cache
    does, either a row is found, counted and rebuilt, and this is the result without any request
    to the model; or the result and the requests are those with an empty cache. -/
theorem assess_cache_failures_invisible (text : String) (description : Option String)
    (model : Option (Nat → Except String Reply)) (cache : Option (Nat → Except String Value))
    (empty : Nat → Except String Value) {rows : Value} (hempty : empty 0 = .ok rows)
    (hnone : firstRow rows = .ok none) :
    let run := (assess text description).outcome ⟨model, cache⟩ Log.empty
    let missed := (assess text description).outcome ⟨model, some empty⟩ Log.empty
    (∃ answers row a, cache = some answers ∧ Restores answers row a ∧
        run.1 = .ok a ∧ run.2.requests = []) ∨
      (¬∃ answers row a, cache = some answers ∧ Restores answers row a) ∧
        run.1 = missed.1 ∧ run.2.requests = missed.2.requests := by
  intro run missed
  obtain ⟨found, hfound⟩ := settles_fromCache text ⟨model, cache⟩ Log.empty
  have hquiet := isQuiet_fromCache text ⟨model, cache⟩ Log.empty
  cases found with
  | some a =>
    have hrun : run = (.ok a, ((fromCache text).outcome ⟨model, cache⟩ Log.empty).2) :=
      outcome_bind_of_ok hfound
    obtain ⟨answers, row, rfl, hrestores⟩ := fromCache_eq_some_iff.mp hfound
    exact .inl ⟨answers, row, a, rfl, hrestores, by rw [hrun], by rw [hrun]; exact hquiet⟩
  | none =>
    have hmissed : ((fromCache text).outcome ⟨model, some empty⟩ Log.empty).1 = .ok none := by
      obtain ⟨_ | a, ha⟩ := settles_fromCache text ⟨model, some empty⟩ Log.empty
      · exact ha
      · obtain ⟨_, row, ⟨⟩, hrestores⟩ := fromCache_eq_some_iff.mp ha
        obtain ⟨rows', hrows', hrow⟩ := hrestores.found
        obtain rfl : rows = rows' := Except.ok.inj (hempty.symm.trans hrows')
        cases hnone.symm.trans hrow
    refine .inr ⟨?_, ?_⟩
    · rintro ⟨answers, row, a, hcache, hrestores⟩
      cases hfound.symm.trans (fromCache_eq_some_iff.mpr ⟨answers, row, hcache, hrestores⟩)
    · -- both start afresh, and so far neither has asked the model
      simp only [run, missed, outcome_assess_of_miss hfound, outcome_assess_of_miss hmissed]
      refine ignoresCache_fresh _ model cache (some empty) _ _ ?_
      rw [hquiet, isQuiet_fromCache]

/-- The answers of a cache that finds a row and then takes nothing more. -/
def foundThenClosed (n : Nat) : Except String Value :=
  if n = 0 then .ok (.list [.dict [("id", .int 7), ("times_requested", .int 1)]])
  else .error "closed"

/-- A row is found, but its new count is not taken. -/
theorem assess_cache_failures_invisible_update :
    ((assess "f(n) begin while (n) do n := 0 end begin end" none).outcome
        ⟨some fun _ => .error "busy", some foundThenClosed⟩ Log.empty).1
      = ((assess "f(n) begin while (n) do n := 0 end begin end" none).outcome
        ⟨some fun _ => .error "busy", some fun _ => .ok (.list [])⟩ Log.empty).1 ∧
    ((assess "f(n) begin while (n) do n := 0 end begin end" none).outcome
        ⟨some fun _ => .error "busy", some foundThenClosed⟩ Log.empty).2.requests
      = ((assess "f(n) begin while (n) do n := 0 end begin end" none).outcome
        ⟨some fun _ => .error "busy", some fun _ => .ok (.list [])⟩ Log.empty).2.requests := by
  rcases assess_cache_failures_invisible "f(n) begin while (n) do n := 0 end begin end" none
    (some fun _ => .error "busy") (some foundThenClosed) (fun _ => .ok (.list [])) rfl rfl with
    ⟨_, row, a, ⟨⟩, hrestores, -, -⟩ | ⟨-, hsame⟩
  · obtain ⟨answer, ⟨⟩⟩ := hrestores.updated
  · exact hsame

end Ordo
