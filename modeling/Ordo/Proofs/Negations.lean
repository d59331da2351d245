import Ordo.Proofs.Values

namespace Ordo

/-!
# Negations are lost

The word `not` leaves nothing in the parse tree.  The rule for a negation sees a single part, as it
does where there is no `not`, and passes it on.

* `negation`, `Derivation.values_negation` — the production with `not`, and what is built by it;
* `Derivation.unnegated` — a derivation with every `not` taken out;
* `Derivation.IsSound.unnegated`, `Derivation.IsSound.tokens_unnegated`,
  `Derivation.IsSound.values_unnegated` — it is a derivation of the other tokens, from which the
  same is built;
* `negation_lost` — no negation of a text is in its syntax tree.
-/

open List

/-- The production of a negation. -/
def negation : Production := ⟨.rule .logicalNot, [.terminal .kwNot, Rule.logicalNot.symbol]⟩

/-- The word `not` stands in negations only. -/
theorem Production.IsLegal.eq_negation {p : Production} (hp : p.IsLegal)
    (h : .terminal .kwNot ∈ p.rhs) : p = negation := by
  obtain ⟨lhs, rhs⟩ := p
  have htable : (lhs.expansions.all fun xs =>
      !xs.contains (.terminal .kwNot) || (⟨lhs, xs⟩ : Production) = negation) = true := by
    cases lhs with
    | rule r => cases r <;> decide
    | many m => cases m <;> decide
  simpa [h] using all_eq_true.mp htable rhs hp

namespace Derivation

/-! ### Values and tokens of nodes -/

theorem valuesAll_cons (d : Derivation) (ds : List Derivation) :
    valuesAll (d :: ds) = d.values.bind fun vs => (valuesAll ds).map (vs ++ ·) := by
  rw [valuesAll, forests, ParseTree.buildAll_append]
  rfl

variable {f : Derivation → Derivation} {ds : List Derivation} {d : Derivation}

theorem valuesAll_map
    (h : ∀ d ∈ ds, (f d).values = d.values) : valuesAll (ds.map f) = valuesAll ds := by
  induction ds with
  | nil => rfl
  | cons d ds ih =>
    obtain ⟨hd, hds⟩ := forall_mem_cons.mp h
    rw [map_cons, valuesAll_cons, valuesAll_cons, hd, ih hds]

theorem tokensAll_map_filter {p : Token → Bool} (h : ∀ d ∈ ds, (f d).tokens = d.tokens.filter p) :
    tokensAll (ds.map f) = (tokensAll ds).filter p := by
  induction ds with
  | nil => rfl
  | cons d ds ih =>
    obtain ⟨hd, hds⟩ := forall_mem_cons.mp h
    rw [map_cons, tokensAll, tokensAll, filter_append, hd, ih hds]

/-- Children from which the same is built may stand for one another. -/
theorem values_node_congr (p : Production) {es : List Derivation}
    (h : valuesAll ds = valuesAll es) : (node p ds).values = (node p es).values := by
  rw [valuesAll, valuesAll] at h
  rw [values, values, forest, forest]
  cases p.lhs with
  | rule r => simp only [ParseTree.buildAll, ParseTree.build, h]
  | many m => exact h

/-- **A negation is built like what is negated.** -/
theorem values_negation {t : Token} {e : Derivation} (ht : t.kind = .kwNot)
    (he : e.symbol = Rule.logicalNot.symbol) : (node negation [leaf t, e]).values = e.values := by
  have hnot : (leaf t).forest = [] := by
    rw [forest, ht]
    rfl
  obtain ⟨tree, htree⟩ : ∃ tree, e.forest = [tree] := by
    cases e with
    | leaf u => simp [symbol] at he
    | node p ds =>
      have hp : p.lhs = .rule .logicalNot := by simpa [symbol] using he
      exact ⟨_, by rw [forest, hp]⟩
  have hforest : (node negation [leaf t, e]).forest = [.node .logicalNot [tree]] := by
    show [ParseTree.node .logicalNot ((leaf t).forest ++ (e.forest ++ []))] = _
    rw [hnot, htree]
    rfl
  rw [values, values, hforest, htree]
  simp only [ParseTree.buildAll, ParseTree.build]
  cases tree.build <;> rfl

/-! ### Derivations without negations -/

/-- A node of a production, or what is negated if it is a negation. -/
def nodeUnlessNegation (p : Production) : List Derivation → Derivation
  | [word, e] => if p = negation then e else node p [word, e]
  | ds => node p ds

mutual

/-- A derivation with every `not` taken out. -/
def unnegated : Derivation → Derivation
  | leaf t => leaf t
  | node p children => nodeUnlessNegation p (unnegatedAll children)

/-- Several derivations with every `not` taken out. -/
def unnegatedAll : List Derivation → List Derivation
  | [] => []
  | d :: ds => d.unnegated :: unnegatedAll ds

end

theorem unnegatedAll_eq_map (ds : List Derivation) : unnegatedAll ds = ds.map unnegated := by
  induction ds with
  | nil => rfl
  | cons d ds ih => simp only [unnegatedAll, map_cons, ih]

/-- A sound derivation is a negation, or its node stays. -/
theorem IsSound.unnegated_cases {p : Production} (h : (node p ds).IsSound) :
    (∃ t e, p = negation ∧ ds = [leaf t, e] ∧ t.kind = .kwNot ∧
      e.symbol = Rule.logicalNot.symbol ∧ (node p ds).unnegated = e.unnegated) ∨
    (.terminal .kwNot ∉ p.rhs ∧ (node p ds).unnegated = node p (ds.map unnegated)) := by
  obtain ⟨hlegal, hrhs⟩ := h.isLegal
  by_cases hp : p = negation
  · subst hp
    obtain ⟨word, es, rfl, hword, hes⟩ := map_eq_cons_iff.mp hrhs
    obtain ⟨e, rfl, he⟩ := map_eq_singleton_iff.mp hes
    cases word with
    | node q qs => simp [symbol] at hword
    | leaf t =>
      have ht : t.kind = .kwNot := by simpa [symbol] using hword
      refine .inl ⟨t, e, rfl, rfl, ht, he, ?_⟩
      simp [unnegated, unnegatedAll, nodeUnlessNegation]
  · refine .inr ⟨fun hnot => hp (Production.IsLegal.eq_negation hlegal hnot), ?_⟩
    rw [unnegated, unnegatedAll_eq_map, nodeUnlessNegation.eq_def]
    split <;> simp_all

/-- Induction on the nodes of sound derivations. -/
@[elab_as_elim]
theorem IsSound.induction {motive : (d : Derivation) → d.IsSound → Prop}
    (leaf : ∀ t (h : (leaf t).IsSound), motive (.leaf t) h)
    (node : ∀ p ds (h : (node p ds).IsSound),
      (∀ d (hd : d ∈ ds), motive d (h.of_mem_children d hd)) → motive (.node p ds) h)
    (h : d.IsSound) : motive d h := by
  induction d with
  | leaf t => exact leaf t h
  | node p ds ih => exact node p ds h fun d hd => ih d hd (h.of_mem_children d hd)

theorem IsSound.symbol_unnegated (h : d.IsSound) : d.unnegated.symbol = d.symbol := by
  induction h using IsSound.induction with
  | leaf t h => rfl
  | node p ds h ih =>
    rcases h.unnegated_cases with ⟨t, e, rfl, rfl, -, he, heq⟩ | ⟨-, heq⟩
    · rw [heq, ih e (by simp), he]
      rfl
    · rw [heq]
      rfl

/-- **Without its negations a derivation is one by the grammar**, of tokens from a text. -/
theorem IsSound.unnegated (h : d.IsSound) : d.unnegated.IsSound := by
  induction h using IsSound.induction with
  | leaf t h => exact h
  | node p ds h ih =>
    rcases h.unnegated_cases with ⟨t, e, rfl, rfl, -, -, heq⟩ | ⟨-, heq⟩
    · rw [heq]
      exact ih e (by simp)
    · obtain ⟨hlegal, hrhs⟩ := h.isLegal
      rw [heq]
      refine isSound_node hlegal ?_ ?_
      · rw [← hrhs, map_map]
        exact map_congr_left fun d hd => (h.of_mem_children d hd).symbol_unnegated
      · intro e he
        obtain ⟨d, hd, rfl⟩ := mem_map.mp he
        exact ih d hd

/-- **Its tokens are all but the words `not`.** -/
theorem IsSound.tokens_unnegated (h : d.IsSound) (hsymbol : d.symbol ≠ .terminal .kwNot) :
    d.unnegated.tokens = d.tokens.filter fun t => t.kind ≠ .kwNot := by
  induction h using IsSound.induction with
  | leaf t h =>
    have hkind : t.kind ≠ .kwNot := by simpa [symbol] using hsymbol
    simp [Derivation.unnegated, tokens, hkind]
  | node p ds h ih =>
    rcases h.unnegated_cases with ⟨t, e, rfl, rfl, ht, he, heq⟩ | ⟨hnot, heq⟩
    · rw [heq, ih e (by simp) (by simp [he])]
      simp [tokens, tokensAll, ht]
    · rw [heq, tokens, tokens]
      refine tokensAll_map_filter fun d hd => ih d hd fun hd' => hnot ?_
      rw [← h.isLegal.2, ← hd']
      exact mem_map_of_mem hd

/-- **The same is built from it.** -/
theorem IsSound.values_unnegated (h : d.IsSound) : d.unnegated.values = d.values := by
  induction h using IsSound.induction with
  | leaf t h => rfl
  | node p ds h ih =>
    rcases h.unnegated_cases with ⟨t, e, rfl, rfl, ht, he, heq⟩ | ⟨-, heq⟩
    · rw [heq, ih e (by simp), values_negation ht he]
    · rw [heq]
      exact values_node_congr p (valuesAll_map ih)

end Derivation

/-- **Negations are lost.**  In the syntax tree of a text, a negation is what is negated and never
    an operation on it.  The tokens of the text without the words `not` can be derived too, and
    the same syntax tree is built from them. -/
theorem negation_lost {text : String} {v : Value} (h : programOfText text = .ok v) :
    ∃ d, derive text.toList = .ok d ∧ d.values = .ok [v] ∧
      (∀ t e, .node negation [.leaf t, e] ∈ d.parts →
        ∃ w, e.values = .ok [w] ∧ (Derivation.node negation [.leaf t, e]).values = .ok [w] ∧
          (Derivation.node negation [.leaf t, e]).values ≠ .ok [.node .unaryOp [.str "not", w]]) ∧
      ∃ d' : Derivation, d'.Obeys Production.IsLegal ∧ d'.symbol = Rule.start.symbol ∧
        d'.tokens = d.tokens.filter (fun t => t.kind ≠ .kwNot) ∧ d'.values = .ok [v] := by
  obtain ⟨d, hderive, hvalues⟩ := programOfText_eq_ok_iff.mp h
  obtain ⟨hsound, hstart⟩ := derive_isSound hderive
  refine ⟨d, hderive, hvalues, fun t e hmem => ?_, d.unnegated, hsound.unnegated.obeys,
    hsound.symbol_unnegated.trans hstart, hsound.tokens_unnegated (by simp [hstart]),
    hsound.values_unnegated.trans hvalues⟩
  obtain ⟨ht, he⟩ : t.kind = .kwNot ∧ e.symbol = Rule.logicalNot.symbol := by
    have hsymbols := (hsound.of_mem_parts _ hmem).isLegal.2
    simpa [Derivation.symbol, negation] using hsymbols
  have hsame := Derivation.values_negation ht he
  obtain ⟨ws, hws⟩ := d.exists_values_of_mem_parts hvalues _ hmem
  obtain ⟨w, rfl⟩ := Derivation.eq_singleton_of_values (r := .logicalNot) rfl hws
  refine ⟨w, hsame.symm.trans hws, hws, ?_⟩
  rw [hws]
  intro heq
  -- no value is an operation on itself
  have hsize := congrArg sizeOf (List.cons.inj (Except.ok.inj heq)).1
  simp at hsize
  omega

/-- A variable that is negated twice. -/
theorem negation_lost_twice : ∃ v, programOfText "begin return not not a end" = .ok v ∧
      ∃ d, derive "begin return not not a end".toList = .ok d ∧ d.values = .ok [v] ∧
        (∀ t e, .node negation [.leaf t, e] ∈ d.parts →
          ∃ w, e.values = .ok [w] ∧ (Derivation.node negation [.leaf t, e]).values = .ok [w] ∧
            (Derivation.node negation [.leaf t, e]).values ≠ .ok [.node .unaryOp [.str "not", w]]) ∧
        ∃ d' : Derivation, d'.Obeys Production.IsLegal ∧ d'.symbol = Rule.start.symbol ∧
          d'.tokens = d.tokens.filter (fun t => t.kind ≠ .kwNot) ∧ d'.values = .ok [v] := by
  obtain ⟨v, hv⟩ := exists_eq_ok_of_isOk (x := programOfText "begin return not not a end")
    (by decide +kernel)
  exact ⟨v, hv, negation_lost hv⟩

/-- A variable and its negation have the same syntax tree. -/
theorem negation_read_as_variable : ((programOfText "begin return not a end").toOption.any fun v =>
      (programOfText "begin return a end").toOption.any v.same) = true := by
  decide +kernel

end Ordo
