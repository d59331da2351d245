import Ordo.Proofs.Chains

namespace Ordo

/-!
# Comparisons lose their signs

The sign of a comparison leaves nothing in the parse tree, so what is built from it is the sign
of equality, whichever sign is written.

* `Comparand` — a sign of a comparison, with the operand after it;
* `compared` — a chain of comparisons with given signs;
* `exists_comparands` — the signs, operands and value of any comparison in a text.
-/

open Derivation List

/-- A sign of a comparison, the operand after it and the value of that operand. -/
structure Comparand where
  sign : Token
  operand : Derivation
  value : Value

namespace Comparand

/-- How a sign and an operand are derived. -/
def group (q : Comparand) : List Derivation :=
  [.node ⟨.rule .compOp, [.terminal q.sign.kind]⟩ [.leaf q.sign], q.operand]

/-- The operator that a sign stands for as it is written, mathematical signs spelled out. -/
def written (q : Comparand) : Value :=
  Build.comparisonSign [.token q.sign.kind.name q.sign.text]

theorem written_eq_equality_iff (q : Comparand) : q.written = .str "=" ↔ q.sign.text = "=" := by
  simp only [written, Build.comparisonSign, Value.text, Value.str.injEq]
  by_cases h₁ : q.sign.text = "≤"
  · simp [h₁]
  · by_cases h₂ : q.sign.text = "≥"
    · simp [h₂]
    · by_cases h₃ : q.sign.text = "≠"
      · simp [h₃]
      · simp [h₁, h₂, h₃]

end Comparand

/-- Comparisons from left to right, with an operator for each. -/
def compared (operator : Comparand → Value) (first : Value) (rest : List Comparand) : Value :=
  rest.foldl (fun left q => .node .binaryOp [operator q, left, q.value]) first

/-- Comparisons with the same operands are equal if their operators are. -/
theorem compared_eq_iff {f g : Comparand → Value} (rest : List Comparand) {v w : Value} :
    compared f v rest = compared g w rest ↔ v = w ∧ ∀ q ∈ rest, f q = g q := by
  induction rest generalizing v w with
  | nil => simp [compared]
  | cons q rest ih =>
    have hstep : compared f (.node .binaryOp [f q, v, q.value]) rest
        = compared g (.node .binaryOp [g q, w, q.value]) rest ↔ _ := ih
    simp only [Value.node.injEq, List.cons.injEq, true_and, and_true] at hstep
    rw [forall_mem_cons, and_left_comm, ← and_assoc]
    exact hstep

theorem operatorChain_compared (first : Value) (rest : List Comparand) :
    Build.operatorChain id first (rest.flatMap fun q => [.str "=", q.value])
      = compared (fun _ => .str "=") first rest := by
  induction rest generalizing first with
  | nil => rfl
  | cons q rest ih =>
    simp only [flatMap_cons, cons_append, nil_append, Build.operatorChain, id]
    rw [ih]
    rfl

/-- Whether symbols are a single terminal that leaves nothing in a parse tree. -/
def isDropped : List Symbol → Bool
  | [.terminal k] => !k.isKept
  | _ => false

/-- A sign is built into the sign of equality. -/
theorem exists_sign {s : Derivation} (hsound : s.IsSound) (hs : s.symbol = Rule.compOp.symbol) :
    ∃ t : Token, s = .node ⟨.rule .compOp, [.terminal t.kind]⟩ [.leaf t] ∧
      s.values = .ok [.str "="] := by
  cases s with
  | leaf t => simp [symbol] at hs
  | node p ds =>
    obtain ⟨lhs, rhs⟩ := p
    obtain rfl : lhs = .rule .compOp := by simpa [symbol] using hs
    obtain ⟨hlegal, hrhs⟩ := hsound.isLegal
    have hsigns : Rule.compOp.phrase.expansions.all isDropped = true := by decide
    have hsign := all_eq_true.mp hsigns rhs hlegal
    unfold isDropped at hsign
    split at hsign
    · rename_i k
      obtain ⟨d, rfl, hd⟩ := map_eq_singleton_iff.mp hrhs
      cases d with
      | node p ds => simp [symbol] at hd
      | leaf t =>
        obtain rfl : t.kind = k := by simpa [symbol] using hd
        have hnothing : valuesAll [.leaf t] = .ok [] := by
          have hkept : t.kind.isKept = false := by simpa using hsign
          simp [valuesAll, forests, forest, hkept,
            ParseTree.buildAll]
        exact ⟨t, rfl, (values_rule_eq_ok_iff rfl).mpr ⟨[], _, hnothing, rfl, rfl⟩⟩
    · simp at hsign

/-- A sign and an operand in a comparison. -/
theorem exists_comparand {g : List Derivation} {vs : List Value}
    (hsymbols : g.map symbol ∈ Repetition.comparisons.phrase.expansions)
    (hsound : ∀ e ∈ g, e.IsSound) (hvalues : valuesAll g = .ok vs) :
    ∃ q : Comparand, g = q.group ∧ q.operand.values = .ok [q.value] ∧
      vs = [.str "=", q.value] := by
  have hpair : g.map symbol = [Rule.compOp.symbol, Rule.arithmetic.symbol] := by
    simpa [Repetition.phrase, Phrase.inTurn, Phrase.expansions] using hsymbols
  obtain ⟨s, ds, rfl, hs, hds⟩ := map_eq_cons_iff.mp hpair
  obtain ⟨r, rfl, hr⟩ := map_eq_singleton_iff.mp hds
  obtain ⟨t, rfl, hsign⟩ := exists_sign (hsound s (by simp)) hs
  obtain ⟨w₁, w₂, hw₁, hw₂, rfl⟩ := valuesAll_cons_eq_ok_iff.mp hvalues
  rw [valuesAll_singleton] at hw₂
  obtain ⟨w, rfl⟩ := eq_singleton_of_values hr hw₂
  obtain rfl : [Value.str "="] = w₁ := by simpa [hsign] using hw₁
  exact ⟨⟨t, r, w⟩, rfl, hw₂, rfl⟩

/-- The signs, operands and value of a comparison. -/
theorem exists_comparands {c : Derivation} {ws : List Value} (hsound : c.IsSound)
    (hc : c.symbol = Rule.comparison.symbol) (hvalues : c.values = .ok ws) :
    ∃ l first rest, c.chain? = some (l, rest.map Comparand.group) ∧
      l.values = .ok [first] ∧ (∀ q ∈ rest, q.operand.values = .ok [q.value]) ∧
      ws = [compared (fun _ => .str "=") first rest] := by
  obtain ⟨l, first, v, rest, hl, hfirst, hrest, hv, rfl⟩ :=
    exists_items_of_values rfl exists_comparand hsound hc hvalues
  refine ⟨l, first, rest, hl, hfirst, hrest, ?_⟩
  rw [← operatorChain_compared]
  simpa [Build.ofRule, Build.unlessSingle_operatorChain] using hv.symm

/-- **Every comparison is read as equality.**  In the syntax tree of a text, a comparison is the
    chain of its operands from left to right with `=` between any two of them, so it is the
    chain with the operators as they are written only if each of them is `=`. -/
theorem comparison_read_as_equality {text : String} {v : Value} (h : programOfText text = .ok v) :
    ∃ d, derive text.toList = .ok d ∧ d.values = .ok [v] ∧
      ∀ c ∈ d.parts, c.symbol = Rule.comparison.symbol →
        ∃ l first rest, c.chain? = some (l, rest.map Comparand.group) ∧
          l.values = .ok [first] ∧ (∀ q ∈ rest, q.operand.values = .ok [q.value]) ∧
          c.values = .ok [compared (fun _ => .str "=") first rest] ∧
          (c.values = .ok [compared Comparand.written first rest] ↔
            ∀ q ∈ rest, q.sign.text = "=") := by
  refine forall_parts_of_programOfText h fun c ws hsound hws hc => ?_
  obtain ⟨l, first, rest, hchain, hfirst, hrest, rfl⟩ := exists_comparands hsound hc hws
  refine ⟨l, first, rest, hchain, hfirst, hrest, hws, ?_⟩
  simp only [hws, Except.ok.injEq, List.cons.injEq, and_true, compared_eq_iff, true_and]
  exact forall₂_congr fun q _ => eq_comm.trans q.written_eq_equality_iff

/-- A text with another sign than `=` is accepted, and its comparison read as equality. -/
theorem less_read_as_equality : ∃ v, programOfText "begin return a < b end" = .ok v ∧
      ∃ d, derive "begin return a < b end".toList = .ok d ∧ d.values = .ok [v] ∧
        ∀ c ∈ d.parts, c.symbol = Rule.comparison.symbol →
          ∃ l first rest, c.chain? = some (l, rest.map Comparand.group) ∧
            l.values = .ok [first] ∧ (∀ q ∈ rest, q.operand.values = .ok [q.value]) ∧
            c.values = .ok [compared (fun _ => .str "=") first rest] ∧
            (c.values = .ok [compared Comparand.written first rest] ↔
              ∀ q ∈ rest, q.sign.text = "=") := by
  obtain ⟨v, hv⟩ := exists_eq_ok_of_isOk (x := programOfText "begin return a < b end")
    (by decide +kernel)
  exact ⟨v, hv, comparison_read_as_equality hv⟩

end Ordo
