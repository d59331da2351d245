import Ordo.Proofs.Values

namespace Ordo

/-!
# Chains of operands

An operand and a repetition of groups, each an operator and one more operand.

* `Derivation.groups` — the occurrences in a repetition, in order;
* `Derivation.IsSound.groups` — each of them derives the phrase that is repeated;
* `Derivation.values_eq_valuesAll_groups` — the values of a repetition are those of its
  occurrences;
* `Derivation.chain?` — the first operand of a chain, and the groups after it;
* `Build.unlessSingle_leftChain`, `Build.unlessSingle_operatorChain` — what is built from the
  operands of a chain, a single one included.
-/

open List

namespace Derivation

/-- The occurrences in a repetition, each as the derivations of its phrase. -/
def groups : Derivation → List (List Derivation)
  | node p (d :: ds) =>
      if d.symbol = .nonterminal p.lhs then d.groups ++ [ds] else [d :: ds]
  | _ => []

/-- The first operand of a chain, and the groups after it. -/
def chain? : Derivation → Option (Derivation × List (List Derivation))
  | node _ [d] => some (d, [])
  | node _ [d, m] => some (d, m.groups)
  | _ => none

end Derivation

/-- The phrase of a repetition does not start with that repetition. -/
theorem Repetition.head?_ne (m : Repetition) {xs : List Symbol} (h : xs ∈ m.phrase.expansions) :
    xs.head? ≠ some m.symbol := by
  have hall : (m.phrase.expansions.all fun xs => xs.head? != some m.symbol) = true := by
    cases m <;> decide
  simpa using all_eq_true.mp hall xs h

namespace Derivation

/-- An occurrence in a repetition derives the phrase that is repeated. -/
theorem IsSound.groups {m : Repetition} : ∀ {d : Derivation}, d.IsSound → d.symbol = m.symbol →
    ∀ g ∈ d.groups, g.map symbol ∈ m.phrase.expansions ∧ ∀ e ∈ g, e.IsSound
  | leaf _, _, _ => by simp [Derivation.groups]
  | node _ [], _, _ => by simp [Derivation.groups]
  | node p (d :: ds), hsound, hsymbol => by
    have hlhs : p.lhs = .many m := by simpa [symbol] using hsymbol
    obtain ⟨hlegal, hrhs⟩ := hsound.isLegal
    obtain ⟨hd, hds⟩ := forall_mem_cons.mp hsound.of_mem_children
    rw [hlhs, Nonterminal.expansions, mem_append, mem_map, ← hrhs] at hlegal
    simp only [map_cons, List.cons.injEq] at hlegal
    rw [Derivation.groups, hlhs]
    split
    · rename_i hmany
      rcases hlegal with hone | ⟨xs, hxs, -, rfl⟩
      · exact absurd (by simp [hmany]) (m.head?_ne hone)
      · exact forall_mem_append.mpr ⟨IsSound.groups hd hmany, by simpa using ⟨hxs, hds⟩⟩
    · rename_i hmany
      rcases hlegal with hone | ⟨xs, -, hhead, -⟩
      · simpa using ⟨hone, hd, hds⟩
      · exact absurd hhead.symm hmany

/-- A repetition leaves what its occurrences leave. -/
theorem forest_eq_forests_groups {m : Repetition} :
    ∀ {d : Derivation}, d.symbol = m.symbol → d.forest = forests d.groups.flatten
  | leaf _, hsymbol => by simp [symbol] at hsymbol
  | node p [], hsymbol => by
    have hlhs : p.lhs = .many m := by simpa [symbol] using hsymbol
    simp [forest, hlhs, Derivation.groups, forests]
  | node p (d :: ds), hsymbol => by
    have hlhs : p.lhs = .many m := by simpa [symbol] using hsymbol
    simp only [forest, hlhs, Derivation.groups]
    by_cases hmany : d.symbol = m.symbol
    · rw [if_pos hmany, flatten_append, forests_append, ← forest_eq_forests_groups hmany]
      simp [forests]
    · rw [if_neg hmany]
      simp

variable {m : Repetition} {d : Derivation} {k : Terminal} {vs : List Value} {ds : List Derivation}

attribute [local simp] symbol groups

/-- A repetition has at least one occurrence. -/
theorem IsSound.groups_ne_nil (hsound : d.IsSound) (h : d.symbol = m.symbol) : d.groups ≠ [] := by
  cases d with
  | leaf t => simp at h
  | node p ds =>
    obtain ⟨hlegal, hrhs⟩ := hsound.isLegal
    cases ds with
    | nil =>
      rw [map_nil] at hrhs
      exact absurd hrhs.symm (p.lhs.expansion_climbs p.rhs hlegal).1
    | cons d ds =>
      rw [Derivation.groups]
      split <;> simp

/-- The children of a derivation by a rule. -/
theorem IsSound.exists_children {r : Rule} (hsound : d.IsSound) (h : d.symbol = r.symbol) :
    ∃ p ds, d = node p ds ∧ p.lhs = .rule r ∧ ds.map symbol ∈ r.phrase.expansions := by
  cases d with
  | leaf t => simp at h
  | node p ds =>
    have hlhs : p.lhs = .rule r := by simpa using h
    obtain ⟨hlegal, hrhs⟩ := hsound.isLegal
    rw [hlhs, ← hrhs] at hlegal
    exact ⟨p, ds, rfl, hlhs, hlegal⟩

/-- A derivation of a single token. -/
theorem exists_eq_leaf (h : d.symbol = .terminal k) : ∃ t : Token, d = leaf t ∧ t.kind = k := by
  cases d with
  | leaf t => exact ⟨t, rfl, by simpa using h⟩
  | node p ds => simp at h

/-- Nothing is built from a token that is not kept. -/
theorem valuesAll_cons_of_not_isKept (h : d.symbol = .terminal k)
    (hk : k.isKept = false) (ds : List Derivation) : valuesAll (d :: ds) = valuesAll ds := by
  obtain ⟨t, rfl, rfl⟩ := exists_eq_leaf h
  simp [valuesAll, forests, forest, hk]

theorem valuesAll_nil_eq_ok_iff : valuesAll [] = .ok vs ↔ vs = [] := by
  rw [valuesAll, forests, ParseTree.buildAll, Except.ok.injEq, eq_comm]

theorem values_eq_valuesAll_groups (h : d.symbol = m.symbol) :
    d.values = valuesAll d.groups.flatten := by
  rw [values, valuesAll, forest_eq_forests_groups h]

section Items

variable {β : Type} {group : β → List Derivation} {parts : β → List Value} {P : β → Prop}

/-- If each occurrence in a repetition is an item of some sort, then a repetition is a list of
    them. -/
theorem exists_items_of_groups
    (hitem : ∀ {g vs}, g.map symbol ∈ m.phrase.expansions → (∀ e ∈ g, e.IsSound) →
      valuesAll g = .ok vs → ∃ q, g = group q ∧ P q ∧ vs = parts q)
    {groups : List (List Derivation)}
    (hgroups : ∀ g ∈ groups, g.map symbol ∈ m.phrase.expansions ∧ ∀ e ∈ g, e.IsSound)
    (hvalues : valuesAll groups.flatten = .ok vs) :
    ∃ rest : List β, groups = rest.map group ∧ (∀ q ∈ rest, P q) ∧ vs = rest.flatMap parts := by
  induction groups generalizing vs with
  | nil => exact ⟨[], rfl, by simp, valuesAll_nil_eq_ok_iff.mp hvalues⟩
  | cons g groups ih =>
    obtain ⟨⟨hsymbols, hsound⟩, hrest⟩ := forall_mem_cons.mp hgroups
    rw [flatten_cons] at hvalues
    obtain ⟨v₁, v₂, hg, htail, rfl⟩ := valuesAll_append_eq_ok_iff.mp hvalues
    obtain ⟨q, rfl, hq, rfl⟩ := hitem hsymbols hsound hg
    obtain ⟨rest, rfl, hrest, rfl⟩ := ih hrest htail
    exact ⟨q :: rest, rfl, forall_mem_cons.mpr ⟨hq, hrest⟩, rfl⟩

/-- **A chain** is a first operand and a list of items, and its value is made from theirs. -/
theorem exists_items_of_values {r operand : Rule}
    (hchain : r.phrase.expansions = [[operand.symbol, m.symbol], [operand.symbol]])
    (hitem : ∀ {g vs}, g.map symbol ∈ m.phrase.expansions → (∀ e ∈ g, e.IsSound) →
      valuesAll g = .ok vs → ∃ q, g = group q ∧ P q ∧ vs = parts q)
    (hsound : d.IsSound) (hd : d.symbol = r.symbol) (hvalues : d.values = .ok vs) :
    ∃ l first v, ∃ rest : List β, d.chain? = some (l, rest.map group) ∧ l.values = .ok [first] ∧
      (∀ q ∈ rest, P q) ∧ Build.ofRule r (first :: rest.flatMap parts) = .ok v ∧ vs = [v] := by
  obtain ⟨p, ds, rfl, hlhs, hshape⟩ := hsound.exists_children hd
  rw [hchain, mem_cons, mem_singleton] at hshape
  obtain ⟨values, v, hparts, hv, rfl⟩ := (values_rule_eq_ok_iff hlhs).mp hvalues
  rcases hshape with hshape | hshape
  · obtain ⟨l, ds, rfl, hl, hds⟩ := map_eq_cons_iff.mp hshape
    obtain ⟨n, rfl, hn⟩ := map_eq_singleton_iff.mp hds
    obtain ⟨v₁, v₂, hv₁, hv₂, rfl⟩ := valuesAll_cons_eq_ok_iff.mp hparts
    obtain ⟨first, rfl⟩ := eq_singleton_of_values hl hv₁
    rw [valuesAll_singleton, values_eq_valuesAll_groups hn] at hv₂
    have hgroups := (hsound.of_mem_children n (by simp)).groups hn
    obtain ⟨rest, hrest, hread, rfl⟩ := exists_items_of_groups hitem hgroups hv₂
    exact ⟨l, first, v, rest, by rw [chain?, hrest], hv₁, hread, hv, rfl⟩
  · obtain ⟨l, rfl, hl⟩ := map_eq_singleton_iff.mp hshape
    rw [valuesAll_singleton] at hparts
    obtain ⟨first, rfl⟩ := eq_singleton_of_values hl hparts
    exact ⟨l, first, v, [], rfl, hparts, by simp, hv, rfl⟩

end Items

end Derivation

/-! ### Values of chains -/

namespace Build

theorem unlessSingle_leftChain (operator : String) (first : Value) (rest : List Value) :
    unlessSingle (first :: rest) (leftChain operator) = .ok (leftChain operator first rest) := by
  cases rest <;> rfl

theorem unlessSingle_operatorChain (operator : Value → Value) (first : Value) (rest : List Value) :
    unlessSingle (first :: rest) (operatorChain operator)
      = .ok (operatorChain operator first rest) := by
  cases rest <;> rfl

end Build

end Ordo
