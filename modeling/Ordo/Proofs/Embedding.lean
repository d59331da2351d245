import Ordo.Proofs.ParsedTrees
import Ordo.Proofs.Surroundings

namespace Ordo

/-!
# Statements in syntax trees

What is built from a loop or a conditional is found again in what is built from the whole, since
no rule on the way up to the program drops it.

* `Symbol.holders`, `Rule.keeps` — the kinds of nodes on the way up, and which of them each rule
  takes;
* `exists_node_of_ofRule` — a rule keeps what it takes;
* `Surroundings.nodes_subset` — so do all rules up to the program.
-/

open List

/-! ### The way up -/

/-- The kinds of loops and conditionals. -/
def Kind.compound : List Kind := [.forLoop, .whileLoop, .repeatLoop, .ifStatement]

/-- The kinds of the nodes that hold statements, by what they are built from. -/
def Symbol.holders : Symbol → List Kind
  | .nonterminal (.rule .start) | .nonterminal (.rule .program) => [.program]
  | .nonterminal (.rule .algorithm) => [.algorithm]
  | .nonterminal (.rule .mainAlgorithm) => [.mainAlgorithm]
  | .nonterminal (.rule .subroutineDefinition) | .nonterminal (.many .subroutines) =>
      [.subroutine]
  | .nonterminal (.rule .block) => [.block]
  | .nonterminal (.rule .forLoop) => [.forLoop]
  | .nonterminal (.rule .whileLoop) => [.whileLoop]
  | .nonterminal (.rule .repeatLoop) => [.repeatLoop]
  | .nonterminal (.rule .ifStatement) => [.ifStatement]
  | .nonterminal (.rule .statement) | .nonterminal (.many .statements) => Kind.compound
  | _ => []

/-- The kinds of such nodes among the parts of a rule. -/
def Rule.keeps : Rule → List Kind
  | start => [.program]
  | program => [.algorithm]
  | algorithm => [.mainAlgorithm, .subroutine]
  | mainAlgorithm | subroutineDefinition | statement | repeatLoop | block => Kind.compound
  | forLoop | whileLoop | ifStatement => [.block]
  | _ => []

variable {xs : List Symbol} {x : Symbol} {k : Kind}

theorem Rule.keeps_of_holders {r : Rule} (hxs : xs ∈ r.phrase.expansions) (hx : x ∈ xs)
    (hk : k ∈ x.holders) : k ∈ r.keeps := by
  have hall : (r.phrase.expansions.all fun xs => xs.all fun x =>
      x.holders.all fun k => r.keeps.contains k) = true := by
    cases r <;> decide
  simp only [all_eq_true, contains_iff_mem] at hall
  exact hall xs hxs x hx k hk

theorem Repetition.holders_of_holders {m : Repetition}
    (hxs : xs ∈ (Nonterminal.many m).expansions) (hx : x ∈ xs)
    (hk : k ∈ x.holders) : k ∈ m.symbol.holders := by
  have hall : ((Nonterminal.many m).expansions.all fun xs => xs.all fun x =>
      x.holders.all fun k => m.symbol.holders.contains k) = true := by
    cases m <;> decide
  simp only [all_eq_true, contains_iff_mem] at hall
  exact hall xs hxs x hx k hk

/-! ### What is built by the rules -/

namespace Typing

/-- The parts of a rule are syntax trees. -/
theorem ofPhrase_syntaxTrees {p : Production} {ds : List Derivation} {r : Rule} {parts : List Value}
    (hsound : (Derivation.node p ds).IsSound) (hp : p.lhs = .rule r)
    (h : Derivation.valuesAll ds = .ok parts) : syntaxTrees.OfPhrase r.phrase parts := by
  obtain ⟨hlegal, hrhs⟩ := hsound.isLegal
  rw [hp, ← hrhs] at hlegal
  have hds : ∀ d ∈ ds, ∃ vs, d.values = .ok vs ∧ syntaxTrees.OfSymbol d.symbol vs := by
    intro d hd
    have hsound := hsound.of_mem_children d hd
    exact exists_values isClosed_syntaxTrees d hsound
      ((Derivation.exists_values_iff hsound).mp (Derivation.exists_values_of_mem h d hd))
  obtain ⟨vs, hvs, hphrase⟩ := exists_valuesAll_of_expansion hds hlegal
  rwa [← Except.ok.inj (hvs.symm.trans h)]

end Typing

namespace Value

variable {v : Value} {k : Kind} {fields vs : List Value}

theorem nodes_subset_of_mem (h : v ∈ fields) : v.nodes ⊆ (node k fields).nodes :=
  fun _ hn => mem_cons_of_mem _ (mem_nodesAll_iff.mpr ⟨v, h, hn⟩)

theorem nodes_subset_of_mem_list (hv : v ∈ vs)
    (h : .list vs ∈ fields) : v.nodes ⊆ (node k fields).nodes :=
  fun _ hn => nodes_subset_of_mem h (mem_nodesAll_iff.mpr ⟨v, hv, hn⟩)

/-- The last part is the only one of its kind. -/
theorem eq_of_mem_snoc {l : Kind} (hkl : k ≠ l)
    (hvs : ∀ v ∈ vs, v.isKind k = true) (h : .node l fields ∈ vs ++ [v]) : v = .node l fields := by
  rcases mem_append.mp h with h | h
  · have hkind : (l == k) = true := hvs _ h
    exact absurd (eq_of_beq hkind).symm hkl
  · exact (mem_singleton.mp h).symm

theorem isStatement_of_compound (h : k ∈ Kind.compound) : (node k fields).isStatement = true := by
  have hall : (Kind.compound.all Kind.isStatement) = true := by decide
  exact all_eq_true.mp hall k h

end Value

open Typing Value

/-- **A rule keeps the nodes that it takes.** -/
theorem exists_node_of_ofRule {r : Rule} {parts : List Value} {v : Value}
    (hparts : syntaxTrees.OfPhrase r.phrase parts) (hbuild : Build.ofRule r parts = .ok v)
    {fields : List Value} (hk : k ∈ r.keeps) (hmem : .node k fields ∈ parts) :
    ∃ l gs, l ∈ r.symbol.holders ∧ v = .node l gs ∧ (node k fields).nodes ⊆ v.nodes := by
  cases r with
  | start =>
    obtain ⟨w, _, rfl, -, rfl⟩ := hparts
    obtain rfl := mem_singleton.mp hmem
    obtain rfl := Except.ok.inj hbuild
    exact ⟨k, fields, hk, rfl, List.Subset.refl _⟩
  | statement =>
    obtain ⟨r, w, rfl, -, -⟩ := exists_statement_part hparts
    obtain rfl := mem_singleton.mp hmem
    obtain rfl := Except.ok.inj hbuild
    exact ⟨k, fields, hk, rfl, List.Subset.refl _⟩
  | program =>
    obtain rfl := mem_singleton.mp hk
    obtain ⟨classes, algorithm, rfl, hclasses, -⟩ := exists_many_append hparts
    replace hclasses := forall_mem_of_many hclasses
    obtain rfl := eq_of_mem_snoc (by decide) hclasses hmem
    obtain rfl := Except.ok.inj ((program_ok hclasses fields).symm.trans hbuild)
    exact ⟨_, _, mem_singleton_self _, rfl, nodes_subset_of_mem (by simp)⟩
  | algorithm =>
    obtain ⟨subroutines, _, rfl, hsubroutines, declarations, body, rfl, -⟩ :=
      exists_many_append hparts
    have hkinds : ∀ s ∈ subroutines, s.isKind .subroutine = true := by
      intro s hs
      obtain ⟨_, _, _, _, rfl, -⟩ := forall_mem_of_many hsubroutines s hs
      rfl
    obtain rfl := Except.ok.inj ((algorithm_ok hkinds _).symm.trans hbuild)
    rcases mem_pair.mp hk with rfl | rfl
    · obtain heq := eq_of_mem_snoc (by decide) hkinds hmem
      exact ⟨_, _, mem_singleton_self _, rfl, nodes_subset_of_mem (by simp [heq])⟩
    · have hkept : .node .subroutine fields ∈ subroutines := by simpa using hmem
      exact ⟨_, _, mem_singleton_self _, rfl, nodes_subset_of_mem_list hkept (by simp)⟩
  | mainAlgorithm | block =>
    obtain rfl := Except.ok.inj hbuild
    have hbody := mem_filter.mpr ⟨hmem, isStatement_of_compound hk⟩
    exact ⟨_, _, mem_singleton_self _, rfl, nodes_subset_of_mem_list hbody (by simp)⟩
  | subroutineDefinition =>
    obtain ⟨_, rest, rfl, ⟨name, -, -, ⟨⟩⟩, -⟩ := hparts
    obtain rfl := Except.ok.inj hbuild
    have hrest : .node k fields ∈ rest := by simpa using hmem
    have hbody := mem_filter.mpr ⟨hrest, isStatement_of_compound hk⟩
    exact ⟨_, _, mem_singleton_self _, rfl, nodes_subset_of_mem_list hbody (by simp)⟩
  | forLoop =>
    obtain ⟨_, _, rfl, ⟨x, -, -, ⟨⟩⟩, _, _, rfl, ⟨y, -, -, ⟨⟩⟩, start, _, rfl, hstart, stop, _, rfl,
      hstop, _, _, rfl, ⟨body, rfl, -⟩, rfl⟩ := hparts
    have hloop := forLoop_ok x.text y.text (.list body) hstart.1 hstop.1
    obtain rfl := Except.ok.inj (hloop.symm.trans hbuild)
    exact ⟨_, _, mem_singleton_self _, rfl,
      nodes_subset_of_mem (by simpa [blockValue] using hmem)⟩
  | whileLoop =>
    obtain ⟨condition, _, rfl, -, body, _, rfl, -, rfl⟩ := hparts
    obtain rfl := Except.ok.inj hbuild
    exact ⟨_, _, mem_singleton_self _, rfl, nodes_subset_of_mem hmem⟩
  | repeatLoop =>
    obtain ⟨body, _, rfl, -, condition, _, rfl, -, rfl⟩ := hparts
    obtain rfl := Except.ok.inj ((repeatLoop_ok body condition).symm.trans hbuild)
    refine ⟨_, _, mem_singleton_self _, rfl, ?_⟩
    rcases mem_append.mp hmem with hmem | hmem
    · exact nodes_subset_of_mem_list hmem (by simp)
    · exact nodes_subset_of_mem (mem_cons_of_mem _ hmem)
  | ifStatement =>
    obtain ⟨condition, _, rfl, -, body, _, rfl, -, helse⟩ := hparts
    rcases helse with ⟨other, _, rfl, -, rfl⟩ | rfl
    · obtain rfl := Except.ok.inj hbuild
      exact ⟨_, _, mem_singleton_self _, rfl, nodes_subset_of_mem hmem⟩
    · obtain rfl := Except.ok.inj hbuild
      exact ⟨_, _, mem_singleton_self _, rfl,
        nodes_subset_of_mem (mem_append_left [_] hmem)⟩
  | _ => exact absurd hk not_mem_nil

/-! ### All rules up to the program -/

namespace Derivation

variable {ds : List Derivation} {d : Derivation}

theorem subset_of_valuesAll {parts : List Value}
    (h : valuesAll ds = .ok parts) (hd : d ∈ ds) {vs : List Value}
    (hvs : d.values = .ok vs) : vs ⊆ parts := by
  obtain ⟨left, right, rfl⟩ := append_of_mem hd
  obtain ⟨us, ws, -, hright, rfl⟩ := valuesAll_append_eq_ok_iff.mp h
  obtain ⟨vs', ws', hd', -, rfl⟩ := valuesAll_cons_eq_ok_iff.mp hright
  obtain rfl := Except.ok.inj (hd'.symm.trans hvs)
  exact fun v hv => mem_append_right _ (mem_append_left _ hv)

/-- What is built from a child is found in what is built from the whole. -/
theorem exists_node_of_child {p : Production} {us vs : List Value}
    (hsound : (node p ds).IsSound) (h : (node p ds).values = .ok us) (hd : d ∈ ds)
    (hvs : d.values = .ok vs) {k : Kind} {fields : List Value} (hk : k ∈ d.symbol.holders)
    (hmem : .node k fields ∈ vs) : ∃ l gs, l ∈ (node p ds).symbol.holders ∧ .node l gs ∈ us ∧
      (Value.node k fields).nodes ⊆ (Value.node l gs).nodes := by
  obtain ⟨hlegal, hrhs⟩ := hsound.isLegal
  have hsymbol : d.symbol ∈ p.rhs := hrhs ▸ mem_map_of_mem hd
  rw [Derivation.symbol]
  cases hp : p.lhs with
  | rule r =>
    rw [hp] at hlegal
    obtain ⟨parts, v, hparts, hbuild, rfl⟩ := (values_rule_eq_ok_iff hp).mp h
    obtain ⟨l, gs, hl, rfl, hnodes⟩ := exists_node_of_ofRule (ofPhrase_syntaxTrees hsound hp hparts)
      hbuild (Rule.keeps_of_holders hlegal hsymbol hk) (subset_of_valuesAll hparts hd hvs hmem)
    exact ⟨l, gs, hl, mem_singleton_self _, hnodes⟩
  | many m =>
    rw [hp] at hlegal
    rw [values_many hp] at h
    exact ⟨k, fields, Repetition.holders_of_holders hlegal hsymbol hk,
      subset_of_valuesAll h hd hvs hmem, List.Subset.refl _⟩

end Derivation

namespace Surroundings

variable {K : Surroundings} {d : Derivation} {us fields : List Value}

theorem exists_values_of_fill (h : (K.fill d).values = .ok us) : ∃ vs, d.values = .ok vs := by
  induction K generalizing us with
  | hole => exact ⟨us, h⟩
  | node p left inner right ih =>
    obtain ⟨ws, hws⟩ := Derivation.exists_values_of_mem_children h (inner.fill d) (by simp)
    exact ih hws

/-- **What is built from a part is found in what is built from the whole**, if it is one of the
    nodes that hold statements. -/
theorem exists_node_of_fill {vs : List Value}
    (hsound : (K.fill d).IsSound) (h : (K.fill d).values = .ok us) (hvs : d.values = .ok vs)
    {k : Kind} (hk : k ∈ d.symbol.holders) (hmem : .node k fields ∈ vs) :
    ∃ l gs, l ∈ (K.fill d).symbol.holders ∧ .node l gs ∈ us ∧
      (Value.node k fields).nodes ⊆ (Value.node l gs).nodes := by
  induction K generalizing us with
  | hole =>
    obtain rfl := Except.ok.inj (hvs.symm.trans h)
    exact ⟨k, fields, hk, hmem, List.Subset.refl _⟩
  | node p left inner right ih =>
    have hchild : inner.fill d ∈ left ++ inner.fill d :: right := by simp
    obtain ⟨ws, hws⟩ := Derivation.exists_values_of_mem_children h _ hchild
    obtain ⟨l, gs, hl, hlmem, hnodes⟩ := ih (hsound.of_mem_children _ hchild) hws
    obtain ⟨l', gs', hl', hlmem', hnodes'⟩ :=
      Derivation.exists_node_of_child hsound h hchild hws hl hlmem
    exact ⟨l', gs', hl', hlmem', List.Subset.trans hnodes hnodes'⟩

/-- **What is built from a statement stays in the program.** -/
theorem nodes_subset {v : Value} {k : Kind} (hsound : (K.fill d).IsSound)
    (h : (K.fill d).values = .ok [v])
    (hd : d.values = .ok [.node k fields]) (hk : k ∈ d.symbol.holders) :
    (Value.node k fields).nodes ⊆ v.nodes := by
  obtain ⟨l, gs, -, hmem, hnodes⟩ :=
    exists_node_of_fill hsound h hd hk (mem_singleton_self _)
  rwa [← mem_singleton.mp hmem]

end Surroundings

end Ordo
