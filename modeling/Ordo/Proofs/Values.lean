import Ordo.Diagram
import Ordo.Proofs.Results
import Ordo.Proofs.Soundness

namespace Ordo

/-!
# Parts of derivations and their values

The syntax tree of a text is built from its derivation, part by part.

* `Derivation.values` — what is built from a derivation: one value for a rule, and all values of
  its parts for a repetition;
* `programOfText_eq_ok_iff` — a text stands for what is built from its derivation;
* `Derivation.parts` — a derivation and all derivations inside it;
* `Derivation.IsSound.of_mem_parts`, `Derivation.exists_values_of_mem_parts` — the parts of the
  derivation of a text are sound, and each has values if the whole has.
-/

open List

/-- A rule as a symbol. -/
abbrev Rule.symbol (r : Rule) : Symbol := .nonterminal (.rule r)

/-- A repetition as a symbol. -/
abbrev Repetition.symbol (m : Repetition) : Symbol := .nonterminal (.many m)

namespace Derivation

theorem forests_eq_flatMap (ds : List Derivation) : forests ds = ds.flatMap forest := by
  induction ds with
  | nil => rfl
  | cons d ds ih => rw [forests, ih, flatMap_cons]

theorem forests_append (ds es : List Derivation) :
    forests (ds ++ es) = forests ds ++ forests es := by
  simp only [forests_eq_flatMap, flatMap_append]

/-! ### Values -/

/-- What is built from a derivation. -/
def values (d : Derivation) : Except BuildFailure (List Value) := ParseTree.buildAll d.forest

/-- What is built from several derivations. -/
def valuesAll (ds : List Derivation) : Except BuildFailure (List Value) :=
  ParseTree.buildAll (forests ds)

end Derivation

variable {ds : List Derivation} {vs : List Value} {p : Production}

theorem ParseTree.buildAll_cons_eq_ok_iff {t : ParseTree} {ts : List ParseTree} :
    buildAll (t :: ts) = .ok vs ↔
      ∃ v ws, build t = .ok v ∧ buildAll ts = .ok ws ∧ vs = v :: ws := by
  rw [buildAll]
  cases build t with
  | error e => simp
  | ok v =>
    cases buildAll ts with
    | error e => simp
    | ok ws => simp [eq_comm]

/-- The values of some trees come before those of the trees that follow. -/
theorem ParseTree.buildAll_append (ts us : List ParseTree) : buildAll (ts ++ us)
    = (buildAll ts).bind fun vs => (buildAll us).map (vs ++ ·) := by
  induction ts with
  | nil => cases h : buildAll us <;> simp [buildAll, Except.bind, Except.map, h]
  | cons t ts ih =>
    rw [cons_append, buildAll, buildAll, ih]
    cases build t with
    | error e => rfl
    | ok v => cases buildAll ts <;> cases buildAll us <;> rfl

theorem ParseTree.buildAll_append_eq_ok_iff {ts us : List ParseTree} :
    buildAll (ts ++ us) = .ok vs ↔
      ∃ v₁ v₂, buildAll ts = .ok v₁ ∧ buildAll us = .ok v₂ ∧ vs = v₁ ++ v₂ := by
  rw [buildAll_append]
  cases buildAll ts with
  | error e => simp [Except.bind]
  | ok v₁ =>
    cases buildAll us with
    | error e => simp [Except.bind, Except.map]
    | ok v₂ => simp [Except.bind, Except.map, eq_comm]

namespace Derivation

variable {d : Derivation}

theorem valuesAll_cons_eq_ok_iff : valuesAll (d :: ds) = .ok vs ↔
      ∃ v₁ v₂, d.values = .ok v₁ ∧ valuesAll ds = .ok v₂ ∧ vs = v₁ ++ v₂ := by
  rw [valuesAll, forests]
  exact ParseTree.buildAll_append_eq_ok_iff

theorem valuesAll_append_eq_ok_iff {es : List Derivation} : valuesAll (ds ++ es) = .ok vs ↔
      ∃ v₁ v₂, valuesAll ds = .ok v₁ ∧ valuesAll es = .ok v₂ ∧ vs = v₁ ++ v₂ := by
  rw [valuesAll, forests_append]
  exact ParseTree.buildAll_append_eq_ok_iff

theorem valuesAll_singleton (d : Derivation) : valuesAll [d] = d.values := by
  simp only [valuesAll, values, forests, append_nil]

/-- A rule makes one value from the values of its parts. -/
theorem values_rule_eq_ok_iff {r : Rule} (hp : p.lhs = .rule r) : (node p ds).values = .ok vs ↔
      ∃ parts v, valuesAll ds = .ok parts ∧ Build.ofRule r parts = .ok v ∧ vs = [v] := by
  simp only [values, forest, hp, ParseTree.buildAll_cons_eq_ok_iff, ParseTree.build, valuesAll]
  cases ParseTree.buildAll (forests ds) with
  | error e => simp
  | ok parts =>
    cases hv : Build.ofRule r parts with
    | error e => simp [ParseTree.attempt, hv]
    | ok v => simp [ParseTree.attempt, ParseTree.buildAll, hv]

/-- A repetition passes on the values of its parts. -/
theorem values_many {m : Repetition}
    (hp : p.lhs = .many m) : (node p ds).values = valuesAll ds := by
  simp only [values, forest, hp, valuesAll]

/-- A rule has one value. -/
theorem eq_singleton_of_values {r : Rule}
    (hd : d.symbol = r.symbol) (h : d.values = .ok vs) : ∃ v, vs = [v] := by
  cases d with
  | leaf t => simp [symbol] at hd
  | node p ds =>
    have hp : p.lhs = .rule r := by simpa [symbol] using hd
    obtain ⟨-, v, -, -, rfl⟩ := (values_rule_eq_ok_iff hp).mp h
    exact ⟨v, rfl⟩

end Derivation

/-- A text stands for what is built from its derivation. -/
theorem programOfText_eq_ok_iff {text : String} {v : Value} :
    programOfText text = .ok v ↔ ∃ d, derive text.toList = .ok d ∧ d.values = .ok [v] := by
  cases hd : derive text.toList with
  | error e =>
    have herror : programOfText text = .error (.parse e) := by
      rw [programOfText, parse, hd]
      rfl
    simp [herror]
  | ok d =>
    have hstart := (derive_isSound hd).2
    obtain ⟨t, ht⟩ : ∃ t, d.forest = [t] := by
      cases d with
      | leaf t => simp [Derivation.symbol] at hstart
      | node p ds =>
        have hp : p.lhs = .rule .start := by simpa [Derivation.symbol] using hstart
        exact ⟨_, by rw [Derivation.forest, hp]⟩
    have htree : d.parseTree = t := by rw [Derivation.parseTree, ht]
    have hvalues : d.values = .ok [v] ↔ t.build = .ok v := by
      rw [Derivation.values, ht, ParseTree.buildAll_cons_eq_ok_iff]
      simp [ParseTree.buildAll]
    have hprogram : programOfText text = t.build.mapError Failure.build := by
      rw [programOfText, parse, hd, ← htree]
      rfl
    rw [hprogram, mapError_eq_ok_iff, ← hvalues]
    simp

/-! ### Parts -/

namespace Derivation

mutual

/-- A derivation and all derivations inside it. -/
def parts : Derivation → List Derivation
  | leaf t => [leaf t]
  | node p ds => node p ds :: partsAll ds

/-- Several derivations and all derivations inside them. -/
def partsAll : List Derivation → List Derivation
  | [] => []
  | d :: ds => d.parts ++ partsAll ds

end

theorem partsAll_eq_flatMap (ds : List Derivation) : partsAll ds = ds.flatMap parts := by
  induction ds with
  | nil => rfl
  | cons d ds ih => rw [partsAll, ih, flatMap_cons]

theorem mem_parts_node {c : Derivation} :
    c ∈ (node p ds).parts ↔ c = node p ds ∨ ∃ d ∈ ds, c ∈ d.parts := by
  rw [parts, partsAll_eq_flatMap, mem_cons, mem_flatMap]

theorem IsSound.of_mem_children (h : (node p ds).IsSound) : ∀ d ∈ ds, d.IsSound := fun d hd =>
  ⟨(obeys_node.mp h.obeys).2.2 d hd, fun t ht => h.lexed t (mem_tokensAll.mpr ⟨d, hd, ht⟩)⟩

theorem IsSound.isLegal (h : (node p ds).IsSound) :
    p.rhs ∈ p.lhs.expansions ∧ ds.map symbol = p.rhs :=
  ⟨h.obeys.1, h.obeys.2.1⟩

/-- The parts of a sound derivation are sound. -/
theorem IsSound.of_mem_parts {d : Derivation} (h : d.IsSound) : ∀ c ∈ d.parts, c.IsSound := by
  induction d with
  | leaf t => simpa [parts] using h
  | node p ds ih =>
    intro c hc
    rcases mem_parts_node.mp hc with rfl | ⟨d, hd, hc⟩
    · exact h
    · exact ih d hd (h.of_mem_children d hd) c hc

theorem exists_values_of_mem (h : valuesAll ds = .ok vs) : ∀ d ∈ ds, ∃ ws, d.values = .ok ws := by
  induction ds generalizing vs with
  | nil => simp
  | cons d ds ih =>
    obtain ⟨v₁, v₂, hd, hds, -⟩ := valuesAll_cons_eq_ok_iff.mp h
    exact forall_mem_cons.mpr ⟨⟨v₁, hd⟩, ih hds⟩

/-- If something is built from a derivation, then so it is from its children. -/
theorem exists_values_of_mem_children (h : (node p ds).values = .ok vs) :
    ∀ d ∈ ds, ∃ ws, d.values = .ok ws := by
  cases hp : p.lhs with
  | rule r =>
    obtain ⟨parts, -, hparts, -, -⟩ := (values_rule_eq_ok_iff hp).mp h
    exact exists_values_of_mem hparts
  | many m => exact exists_values_of_mem ((values_many hp).symm.trans h)

/-- If a whole derivation has values, then so has each part of it. -/
theorem exists_values_of_mem_parts (d : Derivation) {vs : List Value} (h : d.values = .ok vs) :
    ∀ c ∈ d.parts, ∃ ws, c.values = .ok ws := by
  induction d generalizing vs with
  | leaf t => simpa [parts] using ⟨vs, h⟩
  | node p ds ih =>
    intro c hc
    rcases mem_parts_node.mp hc with rfl | ⟨d, hd, hc⟩
    · exact ⟨vs, h⟩
    · obtain ⟨ws, hws⟩ := exists_values_of_mem_children h d hd
      exact ih d hd hws c hc

end Derivation

/-- What holds of sound derivations with values holds of the parts of a program's text. -/
theorem forall_parts_of_programOfText {p : Derivation → Prop} {text : String} {v : Value}
    (h : programOfText text = .ok v) (hp : ∀ c ws, c.IsSound → c.values = .ok ws → p c) :
    ∃ d, derive text.toList = .ok d ∧ d.values = .ok [v] ∧ ∀ c ∈ d.parts, p c := by
  obtain ⟨d, hderive, hvalues⟩ := programOfText_eq_ok_iff.mp h
  refine ⟨d, hderive, hvalues, fun c hc => ?_⟩
  obtain ⟨ws, hws⟩ := d.exists_values_of_mem_parts hvalues c hc
  exact hp c ws ((derive_isSound hderive).1.of_mem_parts c hc) hws

end Ordo
