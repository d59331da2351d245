import Ordo.Proofs.ParsedTrees

namespace Ordo

/-!
# Texts of expressions

Every expression in the syntax tree of a text is one that texts have, so two of them are shown
alike if and only if the same operators and operands are read from them.

* `IsParsedNode` — nodes that stand for expressions of texts;
* `Typing.parsed`, `Typing.isClosed_parsed` — the rules make such nodes;
* `Value.IsExpressionOf.isParsed` — every expression in the syntax tree of a text is one;
* `shown_alike_iff` — which expressions of texts are shown alike.
-/

open Reading Value List

/-! ### Expressions of texts in syntax trees -/

/-- A node stands for an expression of a text, if it is of such a kind. -/
def IsParsedNode (n : Kind × List Value) : Prop :=
  n.1.isExpression = true → (Value.node n.1 n.2).IsParsed

namespace ParsedExpr

mutual

/-- All nodes in an expression of a text stand for such expressions. -/
theorem eachNode_toValue (e : ParsedExpr) : e.toValue.EachNode IsParsedNode := by
  have hnode : ∀ {k fields}, e.toValue = .node k fields → (∀ v ∈ fields, v.EachNode IsParsedNode) →
      e.toValue.EachNode IsParsedNode := by
    intro k fields he hfields
    rw [he]
    exact eachNode_node.mpr ⟨fun _ => ⟨e, he.symm⟩, hfields⟩
  cases e with
  | whole | real | boolean | null => exact hnode rfl (by simp)
  | plain => exact hnode rfl (by simp)
  | field name member indices =>
    refine hnode rfl ?_
    have hindices : (indicesValue (toValues indices)).EachNode IsParsedNode := by
      rw [indicesValue]
      split
      · exact eachNode_none
      · exact eachNode_list.mpr (eachNode_toValues indices)
    simp [hindices]
  | indexed name index indices =>
    exact hnode rfl (by simpa [eachNode_toValue index] using eachNode_toValues indices)
  | slice name start stop =>
    exact hnode rfl (by simp [eachNode_toValue start, eachNode_toValue stop])
  | logical word left right | binary between left right =>
    exact hnode rfl (by simp [eachNode_toValue left, eachNode_toValue right])
  | unary s operand | length operand | ceiling operand | floor operand =>
    exact hnode rfl (by simp [eachNode_toValue operand])
  | call name arguments => exact hnode rfl (by simpa using eachNode_toValues arguments)
  | sign m => exact eachNode_token _ _

theorem eachNode_toValues (es : List ParsedExpr) : ∀ v ∈ toValues es, v.EachNode IsParsedNode := by
  cases es with
  | nil => exact forall_mem_nil _
  | cons e es => exact forall_mem_cons.mpr ⟨eachNode_toValue e, eachNode_toValues es⟩

end

end ParsedExpr

variable {v : Value} {text : String}

theorem Value.IsParsed.eachNode (h : v.IsParsed) : v.EachNode IsParsedNode := by
  obtain ⟨e, rfl⟩ := h
  exact e.eachNode_toValue

/-! ### What the rules make -/

namespace Typing

/-- What the rules and repetitions make, as syntax trees with expressions of texts at all nodes. -/
def parsed : Typing Value where
  token t v := t.GivesLexed v ∧ v.EachNode IsParsedNode
  rule r v := syntaxTrees.rule r v ∧ v.EachNode IsParsedNode
  many m vs := syntaxTrees.many m vs ∧ ∀ v ∈ vs, v.EachNode IsParsedNode

variable {p : Phrase} {vs : List Value} {v : Value}

theorem syntaxTrees_of_parsed (h : parsed.OfPhrase p vs) : syntaxTrees.OfPhrase p vs :=
  OfPhrase.mono (T := parsed) (U := syntaxTrees) (fun _ _ => And.left) (fun _ _ => And.left)
    (fun _ _ => And.left) h

theorem eachNode_parts (h : parsed.OfPhrase p vs) : ∀ v ∈ vs, v.EachNode IsParsedNode :=
  OfPhrase.forall_mem (T := parsed) (fun _ _ ht => ht.2) (fun _ _ hr => hr.2)
    (fun _ _ hm => hm.2) h

/-- **The nodes in what a rule makes** stand for expressions of texts, if they are expressions. -/
theorem eachNode_rule {r : Rule} {parts : List Value}
    (h : parsed.OfPhrase r.phrase parts) (hv : Build.ofRule r parts = .ok v)
    (htree : syntaxTrees.rule r v) : v.EachNode IsParsedNode := by
  have hother : ∀ {k : Kind} (fields : List Value), k.isExpression = false →
      IsParsedNode (k, fields) := by
    intro k fields hk hexpression
    exact absurd (hk.symm.trans hexpression) Bool.false_ne_true
  cases r with
  | expression | logicalOr | logicalAnd | logicalNot | comparison | arithmetic | term | factor
  | power | atom | designator | functionCall | length | ceiling | floor | condition =>
    exact htree.2.eachNode
  | forLoop =>
    obtain ⟨name, _, rfl, ⟨⟨t, -, -, ⟨⟩⟩, -⟩, arrow, _, rfl, ⟨⟨t', -, -, ⟨⟩⟩, -⟩, start, _, rfl,
      ⟨hstart, hstart'⟩, stop, _, rfl, ⟨hstop, hstop'⟩, block, _, rfl, ⟨⟨body, rfl, -⟩, hbody⟩,
      rfl⟩ := h
    have hloop := forLoop_ok t.text t'.text (.list body) hstart.1 hstop.1
    obtain rfl := Except.ok.inj (hloop.symm.trans hv)
    refine eachNode_node.mpr ⟨hother _ rfl, ?_⟩
    simp only [forall_mem_cons, not_mem_nil, false_implies, implies_true, and_true]
    exact ⟨eachNode_str _, hstart', hstop', hbody⟩
  | _ =>
    refine Build.eachNode_ofRule (eachNode_parts h) hv (fun k fields hk _ => ?_)
      (forall_mem_nil _)
    exact hother fields (by cases hk <;> rfl)

theorem eachNode_of_gives {t : Terminal} (h : t.GivesLexed v) : v.EachNode IsParsedNode := by
  cases t with
  | number => exact (isOperandTree_of_gives_number h).2.eachNode
  | boolean =>
    obtain ⟨t, -, -, ⟨⟩⟩ := h
    exact (ParsedExpr.boolean _).eachNode_toValue
  | null =>
    obtain ⟨t, -, -, ⟨⟩⟩ := h
    exact ParsedExpr.null.eachNode_toValue
  | _ =>
    obtain ⟨t, -, -, ⟨⟩⟩ := h
    exact eachNode_token _ _

/-- **Expressions of texts are closed** under all ways of building. -/
theorem isClosed_parsed : parsed.IsClosed where
  token _ _ h := ⟨h, eachNode_of_gives h⟩
  rule r parts h := by
    obtain ⟨v, hv, htree⟩ := isClosed_syntaxTrees.rule r parts (syntaxTrees_of_parsed h)
    exact ⟨v, hv, htree, eachNode_rule h hv htree⟩
  one m vs h := ⟨isClosed_syntaxTrees.one m vs (syntaxTrees_of_parsed h), eachNode_parts h⟩
  more m vs ws hvs h :=
    ⟨isClosed_syntaxTrees.more m vs ws hvs.1 (syntaxTrees_of_parsed h),
      forall_mem_append.mpr ⟨hvs.2, eachNode_parts h⟩⟩

end Typing

/-! ### Expressions of a text -/

/-- A value is an expression somewhere in the syntax tree of a text. -/
def Value.IsExpressionOf (v : Value) (text : String) : Prop :=
  ∃ program k fields, programOfText text = .ok program ∧ (k, fields) ∈ program.nodes ∧
    v = .node k fields ∧ v.isExpression = true

/-- **Every expression in the syntax tree of a text** is one that texts have. -/
theorem Value.IsExpressionOf.isParsed (h : v.IsExpressionOf text) : v.IsParsed := by
  obtain ⟨program, k, fields, hprogram, hmem, rfl, hexpression⟩ := h
  obtain ⟨-, heach⟩ := Typing.isClosed_parsed.of_programOfText hprogram
  exact heach (k, fields) hmem hexpression

/-! ### Expressions that are shown alike -/

/-- An expression of a text that passes a test. -/
theorem exists_isExpressionOf {p : Value → Bool}
    (h : ((programOfText text).toOption.any fun program => program.nodes.any fun n =>
      n.1.isExpression && p (.node n.1 n.2)) = true) :
    ∃ v : Value, v.IsExpressionOf text ∧ p v = true := by
  obtain ⟨program, hprogram, hany⟩ := exists_eq_ok_of_any h
  obtain ⟨⟨k, fields⟩, hmem, htest⟩ := any_eq_true.mp hany
  obtain ⟨hexpression, hp⟩ := Bool.and_eq_true_iff.mp htest
  exact ⟨.node k fields, ⟨program, k, fields, hprogram, hmem, rfl, hexpression⟩, hp⟩

section

variable {v : Value} {text shown : String} (h : v.IsExpressionOf text)
include h

theorem Value.IsExpressionOf.fullForm_eq
    (hshown : v.fullForm.toOption.bind Value.text? = some shown) :
    v.fullForm = .ok (.str shown) := by
  obtain ⟨e, rfl⟩ := h.isParsed
  rw [e.fullForm_toValue] at hshown ⊢
  rw [Option.some.inj hshown]

theorem Value.IsExpressionOf.shortForm_eq
    (hshown : v.shortForm.toOption.bind Value.text? = some shown) :
    v.shortForm = .ok (.str shown) := by
  obtain ⟨e, rfl⟩ := h.isParsed
  rw [e.shortForm_toValue] at hshown ⊢
  rw [Option.some.inj hshown]

end

/-- **Which expressions are shown alike.**  Two expressions of texts are shown alike in a diagram if
    and only if they have the same operators and operands in the same order, where whole numbers,
    names and literals are words, a rounding or a length is a call, and a field has no indices.  In
    a report a variable is its name alone, and what is neither a number nor a call nor has
    operators is its summary. -/
theorem shown_alike_iff {text text' : String} {v v' : Value} (h : v.IsExpressionOf text)
    (h' : v'.IsExpressionOf text') : ∃ e e' : ParsedExpr, v = e.toValue ∧ v' = e'.toValue ∧
      v.fullForm = .ok (.str e.full.shown) ∧ v.shortForm = .ok (.str e.short.shown) ∧
      (v.fullForm = v'.fullForm ↔ e.full = e'.full) ∧
      (v.shortForm = v'.shortForm ↔ e.short = e'.short) := by
  obtain ⟨e, rfl⟩ := h.isParsed
  obtain ⟨e', rfl⟩ := h'.isParsed
  exact ⟨e, e', rfl, rfl, e.fullForm_toValue, e.shortForm_toValue, ParsedExpr.fullForm_eq_iff,
    ParsedExpr.shortForm_eq_iff⟩

/-- A field is shown alike with indices and without. -/
theorem shown_alike_iff_fieldIndices : ∃ v v' : Value, v.IsExpressionOf "begin return x.f[1] end" ∧
      v'.IsExpressionOf "begin return x.f end" ∧ v ≠ v' ∧
      ∃ e e' : ParsedExpr, v = e.toValue ∧ v' = e'.toValue ∧ e.full = e'.full := by
  obtain ⟨v, hv, htest⟩ : ∃ v : Value, v.IsExpressionOf "begin return x.f[1] end" ∧
      (decide (v.fullForm.toOption.bind Value.text? = some "x.f") &&
        (v.field? "field_indices").any Value.isTrue) = true :=
    exists_isExpressionOf (by decide +kernel)
  obtain ⟨v', hv', htest'⟩ : ∃ v : Value, v.IsExpressionOf "begin return x.f end" ∧
      (decide (v.fullForm.toOption.bind Value.text? = some "x.f") &&
        !(v.field? "field_indices").any Value.isTrue) = true :=
    exists_isExpressionOf (by decide +kernel)
  simp only [Bool.and_eq_true, decide_eq_true_eq, Bool.not_eq_true'] at htest htest'
  have hne : v ≠ v' := by
    rintro rfl
    exact Bool.false_ne_true (htest'.2.symm.trans htest.2)
  have hforms := (hv.fullForm_eq htest.1).trans (hv'.fullForm_eq htest'.1).symm
  obtain ⟨e, e', he, he', -, -, hfull, -⟩ := shown_alike_iff hv hv'
  exact ⟨v, v', hv, hv', hne, e, e', he, he', hfull.mp hforms⟩

/-- The nesting of operators is not shown. -/
theorem nesting_not_shown : ∃ v v' : Value, v.IsExpressionOf "begin return (a + b) * c end" ∧
      v'.IsExpressionOf "begin return a + b * c end" ∧ v ≠ v' ∧ v.fullForm = v'.fullForm ∧
      v.shortForm = v'.shortForm := by
  obtain ⟨v, hv, htest⟩ : ∃ v : Value, v.IsExpressionOf "begin return (a + b) * c end" ∧
      (decide (v.fullForm.toOption.bind Value.text? = some "a + b * c") &&
        decide (v.shortForm.toOption.bind Value.text? = some "a + b * c") &&
        decide ((v.field? "operator").bind Value.text? = some "*")) = true :=
    exists_isExpressionOf (by decide +kernel)
  obtain ⟨v', hv', htest'⟩ : ∃ v : Value, v.IsExpressionOf "begin return a + b * c end" ∧
      (decide (v.fullForm.toOption.bind Value.text? = some "a + b * c") &&
        decide (v.shortForm.toOption.bind Value.text? = some "a + b * c") &&
        decide ((v.field? "operator").bind Value.text? = some "+")) = true :=
    exists_isExpressionOf (by decide +kernel)
  simp only [Bool.and_eq_true, decide_eq_true_eq] at htest htest'
  obtain ⟨⟨hfull, hshort⟩, hoperator⟩ := htest
  obtain ⟨⟨hfull', hshort'⟩, hoperator'⟩ := htest'
  refine ⟨v, v', hv, hv', ?_, (hv.fullForm_eq hfull).trans (hv'.fullForm_eq hfull').symm,
    (hv.shortForm_eq hshort).trans (hv'.shortForm_eq hshort').symm⟩
  rintro rfl
  exact absurd (hoperator.symm.trans hoperator') (by decide)

end Ordo
