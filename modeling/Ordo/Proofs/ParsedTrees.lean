import Ordo.Proofs.Operands
import Ordo.Proofs.ParsedExpressions
import Ordo.Proofs.Parts

namespace Ordo

/-!
# The syntax trees of texts

What a text stands for is a syntax tree with all its parts in place, so that what is shown of the
analyses and the drawings of syntax trees holds of every program that was parsed.  Building it
fails only at whole numbers that are too long.

* `Value.IsParsed`, `Value.IsStatementPart`, `Value.IsBlockTree` — what stands for expressions,
  statements and blocks;
* `Value.IsSubroutine`, `Value.IsProgram` — subroutines and programs with all their fields;
* `Typing.syntaxTrees`, `Typing.isClosed_syntaxTrees` — what every rule makes is a syntax tree;
* `exists_programOfText_iff` — which texts stand for a program;
* `programOfText_isProgram`, `isSubroutine_of_programOfText` — its parts.
-/

open Build (ofRule)

open Reading List

/-! ### Tokens -/

theorem isNameChar_of_isNameStart {c : Char} (h : isNameStart c = true) : isNameChar c = true :=
  Bool.or_eq_true_iff.mpr ((Bool.or_eq_true_iff.mp h).imp_left fun halpha =>
    Bool.or_eq_true_iff.mpr (.inl halpha))

variable {t : Token} {text : String}

/-- A name is a word. -/
theorem Token.IsLexed.exists_word (h : t.IsLexed) (hkind : t.kind = .cname) :
    ∃ w : Word, t.text = w.text := by
  obtain ⟨context, k, cs, rest, hlexeme, hk⟩ := h.exists_lexeme
  obtain rfl : k = .cname := by
    by_contra hne
    rw [wordKind, if_neg hne, hkind] at hk
    exact hne hk.symm
  cases cs with
  | nil => cases hlexeme
  | cons c cs =>
    simp only [Terminal.lexeme?] at hlexeme
    split at hlexeme
    · rename_i hc
      obtain ⟨htext, -⟩ := Prod.mk.inj (Option.some.inj hlexeme)
      have hname : ∀ d ∈ t.text.toList, isNameChar d = true := by
        rw [← htext]
        exact forall_mem_cons.mpr
          ⟨isNameChar_of_isNameStart hc, fun d hd => mem_takeWhile_imp hd⟩
      have hne : t.text.toList ≠ [] := htext ▸ cons_ne_nil _ _
      exact ⟨.ofName _ hne hname, String.ofList_toList.symm⟩
    · cases hlexeme

/-- A numeral stands for a whole number or a real one. -/
theorem Token.IsLexed.exists_number (h : t.IsLexed) (hkind : t.kind = .number)
    {n : Value} (hn : numberOf t.text = .ok n) :
    ∃ e : ParsedExpr, .node .number [n] = e.toValue := by
  unfold numberOf at hn
  split at hn
  · split at hn
    · rename_i f _
      obtain rfl := Except.ok.inj hn
      obtain ⟨p, hp⟩ := Decimal.exists_piece_write f
      exact ⟨.real f p hp, rfl⟩
    · cases hn
  · rename_i hpoint
    obtain ⟨whole, hne, hwhole, heq | ⟨fraction, -, -, heq⟩⟩ := isNumeral_of_isLexed h hkind
    · obtain ⟨hfirst, hlast⟩ := head?_of_isDecimal hwhole
      split at hn
      · rename_i i hi
        obtain rfl := Except.ok.inj hn
        simp only [Decimal.readWhole, heq, bare_of_isDecimal hfirst hlast,
          sign_of_isDecimal hfirst, Bool.false_eq_true, if_false] at hi
        split_ifs at hi
        obtain rfl := Except.ok.inj hi
        exact ⟨.whole _, rfl⟩
      · cases hn
    · simp [heq] at hpoint

/-! ### Parts of syntax trees -/

namespace Value

/-- A value stands for an expression of a text. -/
def IsParsed (v : Value) : Prop := ∃ e : ParsedExpr, v = e.toValue

/-- Expressions that are nodes, as all but left-over signs are. -/
def IsOperandTree (v : Value) : Prop := v.isExpression = true ∧ v.IsParsed

/-- What stands for a statement: its syntax tree, or the parse tree of a declaration. -/
def IsStatementPart (v : Value) : Prop := v.IsDrawable ∧ (v.isStatement = true → v.IsStmtTree)

/-- Blocks of statements. -/
def IsBlockTree (v : Value) : Prop :=
  ∃ body, v = blockValue body ∧ (∀ u ∈ body, u.IsDrawable) ∧ ∀ u ∈ body, u.IsStmtTree

/-- Lists of values of one sort. -/
def IsListOf (sort : Value → Prop) (v : Value) : Prop := ∃ vs, v = list vs ∧ ∀ u ∈ vs, sort u

/-- Subroutines with all their fields. -/
def IsSubroutine (v : Value) : Prop :=
  ∃ name parameters declarations body,
    v = node .subroutine [str name, list parameters, list declarations, list body] ∧
    (∀ p ∈ parameters, p.IsNamedParameter) ∧ (∀ u ∈ body, u.IsDrawable) ∧
    ∀ u ∈ body, u.IsStmtTree

/-- The main part of an algorithm. -/
def IsMain (v : Value) : Prop :=
  ∃ declarations body, v = node .mainAlgorithm [list declarations, list body] ∧
    ∀ u ∈ body, u.IsStmtTree

/-- Algorithms with a main part. -/
def IsAlgorithm (v : Value) : Prop :=
  ∃ subroutines main, v = node .algorithm [list subroutines, main] ∧
    (∀ s ∈ subroutines, s.IsSubroutine) ∧ main.IsMain

/-- Programs with an algorithm. -/
def IsProgram (v : Value) : Prop :=
  ∃ classes algorithm, v = node .program [list classes, algorithm] ∧ algorithm.IsAlgorithm

variable {v : Value} {parts : List Value}

theorem IsOperandTree.isExprTree (h : v.IsOperandTree) : v.IsExprTree := by
  obtain ⟨-, e, rfl⟩ := h
  exact e.isExprTree_toValue

theorem exists_toValues {vs : List Value} (h : ∀ v ∈ vs, v.IsParsed) :
    ∃ es, vs = ParsedExpr.toValues es := by
  induction vs with
  | nil => exact ⟨[], rfl⟩
  | cons v vs ih =>
    obtain ⟨⟨e, rfl⟩, hvs⟩ := forall_mem_cons.mp h
    obtain ⟨es, rfl⟩ := ih hvs
    exact ⟨e :: es, rfl⟩

theorem IsSubroutine.isSubroutineTree (h : v.IsSubroutine) : v.IsSubroutineTree := by
  obtain ⟨name, parameters, declarations, body, rfl, hparameters, -, hbody⟩ := h
  refine .mk rfl (fun p hp => ?_) hbody
  obtain ⟨name, type, className, dimensions, hp, -⟩ := hparameters p hp
  exact ⟨name, type, className, dimensions, hp⟩

theorem IsSubroutine.isDrawableSubroutine (h : v.IsSubroutine) : v.IsDrawableSubroutine := by
  obtain ⟨name, parameters, declarations, body, rfl, hparameters, hbody, -⟩ := h
  exact .mk rfl hparameters hbody

theorem IsStatementPart.of_isStmtTree (hdrawable : v.IsDrawable) (h : v.IsStmtTree) :
    v.IsStatementPart :=
  ⟨hdrawable, fun _ => h⟩

/-- The statements among the parts of a body. -/
theorem forall_mem_filter_isStatement (h : ∀ v ∈ parts, v.IsStatementPart) :
    (∀ v ∈ parts.filter isStatement, v.IsDrawable) ∧
      ∀ v ∈ parts.filter isStatement, v.IsStmtTree := by
  refine ⟨fun v hv => ?_, fun v hv => ?_⟩
  all_goals obtain ⟨hmem, hstatement⟩ := mem_filter.mp hv
  · exact (h v hmem).1
  · exact (h v hmem).2 hstatement

/-- Neither a statement nor a declaration is taken for a parameter. -/
theorem parametersOf_eq_nil (h : ∀ v ∈ parts, v.IsStatementPart) :
    Build.parametersOf parts = [] := by
  refine flatMap_eq_nil_iff.mpr fun v hv => ?_
  cases (h v hv).1 <;> rfl

theorem nodesOf_list_subset (kind : Kind) (vs : List Value) :
    Build.nodesOf kind [list vs] ⊆ vs := by
  show (if Build.allOf kind vs then vs else []) ++ [] ⊆ vs
  rw [append_nil]
  split
  · exact List.Subset.refl vs
  · exact nil_subset vs

end Value

open Value

/-- What the rules and repetitions make, as syntax trees. -/
def Typing.syntaxTrees : Typing Value where
  token := Terminal.GivesLexed
  rule
    | .start | .program => IsProgram
    | .classDefinition => fun v => v.isKind .classDefinition = true
    | .algorithm => IsAlgorithm
    | .mainAlgorithm => IsMain
    | .subroutineDefinition => IsSubroutine
    | .parameterList => IsListOf IsNamedParameter
    | .parameter | .arrayParameter | .objectParameter | .simpleParameter => IsNamedParameter
    | .statement | .declaration | .assignment | .forLoop | .whileLoop | .repeatLoop
    | .ifStatement | .callStatement | .returnStatement | .comment => IsStatementPart
    | .arrayDeclaration | .objectDeclaration => fun v => v.fault? = Option.none
    | .block => IsBlockTree
    | .argumentList => fun v => ∃ es, v = .list (ParsedExpr.toValues es)
    | .range => fun v => ∃ start stop : ParsedExpr, v = .tuple [start.toValue, stop.toValue]
    | .compOp => fun v => v = .str "="
    | .expression | .logicalOr | .logicalAnd | .logicalNot | .comparison | .arithmetic | .term
    | .factor | .power | .atom | .designator | .functionCall | .length | .ceiling | .floor
    | .condition => IsOperandTree
    | .attributeList => fun _ => True
  many
    | .classes => fun vs => ∀ v ∈ vs, v.isKind .classDefinition = true
    | .names => fun vs => ∃ names : List String, vs = names.map (.token "CNAME")
    | .subroutines => fun vs => ∀ v ∈ vs, v.IsSubroutine
    | .statements => fun vs => ∀ v ∈ vs, v.IsStatementPart
    | .parameters => fun vs => ∀ v ∈ vs, v.IsNamedParameter
    | .indices => fun vs => vs ≠ [] ∧ ∀ v ∈ vs, v.IsOperandTree
    | .arguments | .disjuncts | .conjuncts | .summands | .multiplicands | .exponents =>
        fun vs => ∀ v ∈ vs, v.IsParsed
    | .comparisons => fun vs =>
        ∃ es : List ParsedExpr, vs = es.flatMap fun e => [.str "=", e.toValue]
    | .brackets => fun _ => True

namespace Typing

/-! ### Values of tokens -/

variable {v : Value}

theorem isOperandTree_of_gives_number (h : Terminal.number.GivesLexed v) : v.IsOperandTree := by
  obtain ⟨t, hlexed, hkind, hv⟩ := h
  obtain ⟨u, ⟨⟩, hnode⟩ := bind_eq_ok_iff.mp hv
  obtain ⟨n, hn, ⟨⟩⟩ := bind_eq_ok_iff.mp hnode
  exact ⟨rfl, hlexed.exists_number hkind hn⟩

theorem exists_word_of_gives (h : Terminal.cname.GivesLexed v) :
    ∃ w : Word, v = .token Terminal.cname.name w.text := by
  obtain ⟨t, hlexed, hkind, ⟨⟩⟩ := h
  obtain ⟨w, hw⟩ := hlexed.exists_word hkind
  exact ⟨w, by rw [hw]⟩

/-- The signs of operators stay tokens. -/
theorem eq_sign_of_gives {m : Mark} (h : m.terminal.GivesLexed v) :
    v = (ParsedExpr.sign m).toValue := by
  obtain ⟨t, hlexed, hkind, hv⟩ := h
  have hspelling : t.kind.spelling? = some (.singleton m.char) := by
    rw [hkind]
    cases m with
    | sign s => cases s <;> rfl
    | _ => rfl
  have htoken : m.terminal.value (.token m.terminal.name t.text)
      = .ok (.token m.terminal.name t.text) := by
    cases m with
    | sign s => cases s <;> rfl
    | _ => rfl
  rw [hlexed.spelling?_eq hspelling] at hv htoken
  exact Except.ok.inj (hv.symm.trans htoken)

/-! ### Chains of operators -/

section Chains

variable {first : Value} {rest : List Value}

theorem isOperandTree_leftChain (word : Logical) (hfirst : first.IsOperandTree)
    (hrest : ∀ v ∈ rest, v.IsParsed) :
    (Build.leftChain word.word.text first rest).IsOperandTree := by
  unfold Build.leftChain
  induction rest generalizing first with
  | nil => exact hfirst
  | cons v rest ih =>
    obtain ⟨⟨right, rfl⟩, htail⟩ := forall_mem_cons.mp hrest
    obtain ⟨-, left, rfl⟩ := hfirst
    exact ih ⟨rfl, .logical word left right, rfl⟩ htail

/-- Whatever stands between two operands is taken for their operator. -/
theorem isOperandTree_signChain (hfirst : first.IsOperandTree) (hrest : ∀ v ∈ rest, v.IsParsed) :
    (Build.operatorChain Build.signText first rest).IsOperandTree := by
  fun_induction Build.operatorChain Build.signText first rest with
  | case1 left op right rest ih =>
    obtain ⟨⟨between, rfl⟩, hoperands⟩ := forall_mem_cons.mp hrest
    obtain ⟨⟨e', rfl⟩, htail⟩ := forall_mem_cons.mp hoperands
    obtain ⟨-, e, rfl⟩ := hfirst
    exact ih ⟨rfl, .binary between e e', rfl⟩ htail
  | case2 => exact hfirst

theorem isOperandTree_comparisonChain (hfirst : first.IsOperandTree) (es : List ParsedExpr) :
    (Build.operatorChain id first (es.flatMap fun e => [.str "=", e.toValue])).IsOperandTree := by
  induction es generalizing first with
  | nil => exact hfirst
  | cons e es ih =>
    obtain ⟨-, left, rfl⟩ := hfirst
    exact ih ⟨rfl, .binary (.sign .equals) left e, rfl⟩

theorem exists_rightChain (hfirst : first.IsParsed) (hrest : ∀ v ∈ rest, v.IsParsed) :
    ∃ v, Build.rightChain (first :: rest) = .ok v ∧ v.IsParsed ∧
      (first.isExpression = true → v.isExpression = true) := by
  induction rest generalizing first with
  | nil => exact ⟨first, rfl, hfirst, id⟩
  | cons u rest ih =>
    obtain ⟨hu, hrest⟩ := forall_mem_cons.mp hrest
    obtain ⟨_, hright, ⟨right, rfl⟩, -⟩ := ih hu hrest
    obtain ⟨left, rfl⟩ := hfirst
    refine ⟨_, ?_, ⟨.binary (.sign .circumflex) left right, rfl⟩, fun _ => rfl⟩
    show (Build.rightChain (u :: rest)).map _ = _
    rw [hright]
    rfl

end Chains

/-! ### Rules -/

section Rules

variable {parts : List Value}

/-- A designator is a name alone, with a field, with indices, or with a range. -/
theorem syntaxTrees_designator (h : syntaxTrees.OfPhrase Rule.designator.phrase parts) :
    ∃ v, ofRule .designator parts = .ok v ∧ v.IsOperandTree := by
  rcases h with (((⟨_, _, rfl, hname, _, _, rfl, hfield, indices, _, rfl, ⟨hne, hindices⟩, rfl⟩
    | ⟨_, _, rfl, hname, _, _, rfl, hfield, rfl⟩)
    | ⟨_, _, rfl, hname, indices, _, rfl, ⟨hne, hindices⟩, rfl⟩)
    | ⟨_, _, rfl, hname, range, _, rfl, ⟨start, stop, rfl⟩, rfl⟩) | ⟨_, _, rfl, hname, rfl⟩
  all_goals obtain ⟨w, rfl⟩ := exists_word_of_gives hname
  · obtain ⟨member, rfl⟩ := exists_word_of_gives hfield
    obtain ⟨es, rfl⟩ := exists_toValues fun v hv => (hindices v hv).2
    exact ⟨_, rfl, rfl, .field w member es, by simp [ParsedExpr.toValue, indicesValue]⟩
  · obtain ⟨member, rfl⟩ := exists_word_of_gives hfield
    exact ⟨_, rfl, rfl, .field w member [], rfl⟩
  · -- the first index is a node, so it is neither a field nor a range
    obtain ⟨index, rest, rfl⟩ := exists_cons_of_ne_nil hne
    obtain ⟨⟨hnode, e, rfl⟩, hrest⟩ := forall_mem_cons.mp hindices
    obtain ⟨es, rfl⟩ := exists_toValues fun v hv => (hrest v hv).2
    have hvar := variableNode_indexed w.text (ParsedExpr.toValues es ++ []) hnode
    exact ⟨_, hvar, rfl, .indexed w e es, by rw [append_nil, ParsedExpr.toValue]⟩
  · exact ⟨_, rfl, rfl, .slice w start stop, rfl⟩
  · exact ⟨_, rfl, rfl, .plain w, rfl⟩

/-- An atom is a literal, a designator, a call, or an expression in brackets. -/
theorem syntaxTrees_atom (h : syntaxTrees.OfPhrase Rule.atom.phrase parts) :
    ∃ v, ofRule .atom parts = .ok v ∧ v.IsOperandTree := by
  rcases h with (((((((⟨v, _, rfl, hv, rfl⟩ | ⟨v, _, rfl, hv, rfl⟩) | ⟨v, _, rfl, hv, rfl⟩)
    | ⟨v, _, rfl, hv, rfl⟩) | ⟨v, _, rfl, hv, rfl⟩) | ⟨v, _, rfl, hv, rfl⟩)
    | ⟨v, _, rfl, hv, rfl⟩) | ⟨v, _, rfl, hv, rfl⟩) | ⟨v, _, rfl, hv, rfl⟩
  · exact ⟨v, rfl, isOperandTree_of_gives_number hv⟩
  · obtain ⟨t, -, -, ⟨⟩⟩ := hv
    exact ⟨_, rfl, rfl, .boolean _, rfl⟩
  · obtain ⟨t, -, -, ⟨⟩⟩ := hv
    exact ⟨_, rfl, rfl, .null, rfl⟩
  all_goals exact ⟨v, rfl, hv⟩

/-- The arguments of a call, if it has any. -/
theorem exists_arguments {name : Value} {rest : List Value}
    (h : syntaxTrees.OfPhrase (Phrase.inTurn Terminal.lpar [.opt Rule.argumentList, Terminal.rpar])
      rest) : ∃ es, Build.argumentsOf (name :: rest) = .list (ParsedExpr.toValues es) := by
  rcases h with ⟨v, _, rfl, hv, rfl⟩ | rfl
  · exact hv
  · exact ⟨[], rfl⟩

theorem syntaxTrees_factor (h : syntaxTrees.OfPhrase Rule.factor.phrase parts) :
    ∃ v, ofRule .factor parts = .ok v ∧ v.IsOperandTree := by
  rcases h with (⟨_, _, rfl, hsign, _, _, rfl, ⟨-, e, rfl⟩, rfl⟩
    | ⟨_, _, rfl, hsign, _, _, rfl, ⟨-, e, rfl⟩, rfl⟩) | ⟨v, _, rfl, hv, rfl⟩
  · obtain rfl := eq_sign_of_gives (m := .sign .plus) hsign
    exact ⟨_, rfl, rfl, .unary .plus e, rfl⟩
  · obtain rfl := eq_sign_of_gives (m := .sign .minus) hsign
    exact ⟨_, rfl, rfl, .unary .minus e, rfl⟩
  · exact ⟨v, rfl, hv⟩

theorem syntaxTrees_statement (h : syntaxTrees.OfPhrase Rule.statement.phrase parts) :
    ∃ v, ofRule .statement parts = .ok v ∧ v.IsStatementPart := by
  obtain ⟨r, v, rfl, hv, hr⟩ := exists_statement_part h
  refine ⟨v, rfl, ?_⟩
  cases r with
  | declaration | assignment | forLoop | whileLoop | repeatLoop | ifStatement | callStatement
  | returnStatement | comment => exact hv
  | _ => cases hr

/-- The parse tree of a declaration has names and expressions in it. -/
theorem syntaxTrees_declaration (h : syntaxTrees.OfPhrase Rule.declaration.phrase parts) :
    ∃ v, ofRule .declaration parts = .ok v ∧ v.IsStatementPart := by
  obtain ⟨u, rfl, hu⟩ : ∃ u, parts = [u] ∧ u.fault? = Option.none := by
    rcases h with ⟨u, _, rfl, hu, rfl⟩ | ⟨u, _, rfl, hu, rfl⟩
    all_goals exact ⟨u, rfl, hu⟩
  exact ⟨_, rfl, .declaration (by simp [fault?, faultIn?, hu]), (absurd · Bool.false_ne_true)⟩

theorem syntaxTrees_ifStatement (h : syntaxTrees.OfPhrase Rule.ifStatement.phrase parts) :
    ∃ v, ofRule .ifStatement parts = .ok v ∧ v.IsStatementPart := by
  obtain ⟨condition, _, rfl, hcondition, _, _, rfl, ⟨body, rfl, hbody, hbody'⟩, helse⟩ := h
  replace hcondition := hcondition.isExprTree
  rcases helse with ⟨_, _, rfl, ⟨otherwise, rfl, hother, hother'⟩, rfl⟩ | rfl
  · exact ⟨_, rfl, .of_isStmtTree (.ifElse hcondition hbody hother)
      (.ifElse hcondition hbody' hother')⟩
  · exact ⟨_, rfl, .of_isStmtTree (.ifThen hcondition hbody) (.ifThen hcondition hbody')⟩

theorem syntaxTrees_subroutine (h : syntaxTrees.OfPhrase Rule.subroutineDefinition.phrase parts) :
    ∃ v, ofRule .subroutineDefinition parts = .ok v ∧ v.IsSubroutine := by
  obtain ⟨_, heads, statements, rfl, ⟨name, -, -, ⟨⟩⟩, hheads, hstatements⟩ := exists_signature h
  replace hstatements := forall_mem_of_many hstatements
  have hfilter : (heads ++ statements).filter isStatement = statements.filter isStatement := by
    rcases hheads with rfl | ⟨_, rfl, ps, rfl, -⟩ <;> rfl
  refine ⟨_, rfl, _, _, _, _, rfl, fun p hp => ?_, ?_⟩
  · rw [drop_succ_cons, drop_zero, Build.parametersOf, nodesOf_append] at hp
    change p ∈ Build.nodesOf .parameter heads ++ Build.parametersOf statements at hp
    rw [parametersOf_eq_nil hstatements, append_nil] at hp
    rcases hheads with rfl | ⟨_, rfl, ps, rfl, hps⟩
    · cases hp
    · exact hps p (nodesOf_list_subset _ _ hp)
  · rw [drop_succ_cons, drop_zero, hfilter]
    exact forall_mem_filter_isStatement hstatements

theorem syntaxTrees_algorithm (h : syntaxTrees.OfPhrase Rule.algorithm.phrase parts) :
    ∃ v, ofRule .algorithm parts = .ok v ∧ v.IsAlgorithm := by
  obtain ⟨subroutines, _, rfl, hsubroutines, declarations, body, rfl, hbody⟩ :=
    exists_many_append h
  replace hsubroutines := forall_mem_of_many hsubroutines
  refine ⟨_, algorithm_ok (fun s hs => ?_) _, _, _, rfl, hsubroutines, _, _, rfl, hbody⟩
  obtain ⟨name, parameters, declarations, body, rfl, -⟩ := hsubroutines s hs
  rfl

theorem syntaxTrees_program (h : syntaxTrees.OfPhrase Rule.program.phrase parts) :
    ∃ v, ofRule .program parts = .ok v ∧ v.IsProgram := by
  obtain ⟨classes, _, rfl, hclasses, subroutines, main, rfl, halgorithm⟩ :=
    exists_many_append h
  exact ⟨_, program_ok (forall_mem_of_many hclasses) _, _, _, rfl, _, _, rfl, halgorithm⟩

end Rules

/-- **Every rule makes a syntax tree** from syntax trees. -/
theorem syntaxTrees_rule (r : Rule) (parts : List Value) (h : syntaxTrees.OfPhrase r.phrase parts) :
    ∃ v, ofRule r parts = .ok v ∧ syntaxTrees.rule r v := by
  cases r with
  | start | expression | condition =>
    obtain ⟨v, _, rfl, hv, rfl⟩ := h
    exact ⟨v, rfl, hv⟩
  | program => exact syntaxTrees_program h
  | classDefinition =>
    obtain ⟨_, _, rfl, ⟨name, -, -, ⟨⟩⟩, attributes, _, rfl, -, rfl⟩ := h
    exact ⟨_, rfl, rfl⟩
  | attributeList =>
    obtain ⟨_, _, rfl, ⟨names, rfl⟩, rfl⟩ := h
    refine ⟨.list (names.map .str), ?_, trivial⟩
    rw [ofRule, append_nil, mapM_valueOf_names]
    rfl
  | algorithm => exact syntaxTrees_algorithm h
  | mainAlgorithm =>
    exact ⟨_, rfl, _, _, rfl,
      (forall_mem_filter_isStatement (forall_mem_of_many (many_or_eq_nil h))).2⟩
  | subroutineDefinition => exact syntaxTrees_subroutine h
  | parameterList =>
    obtain ⟨first, rest, rfl, hfirst, hrest⟩ := exists_parts_of_chain h
    exact ⟨_, rfl, _, rfl, forall_mem_cons.mpr ⟨hfirst, forall_mem_of_many hrest⟩⟩
  | parameter =>
    rcases h with (⟨v, _, rfl, hv, rfl⟩ | ⟨v, _, rfl, hv, rfl⟩) | ⟨v, _, rfl, hv, rfl⟩
    all_goals exact ⟨v, rfl, hv⟩
  | arrayParameter =>
    obtain ⟨_, _, rfl, ⟨name, -, -, ⟨⟩⟩, -⟩ := h
    exact ⟨_, rfl, _, _, _, _, rfl, rfl⟩
  | objectParameter =>
    obtain ⟨_, _, rfl, ⟨className, -, -, ⟨⟩⟩, _, _, rfl, ⟨name, -, -, ⟨⟩⟩, rfl⟩ := h
    exact ⟨_, rfl, _, _, _, _, rfl, rfl⟩
  | simpleParameter =>
    obtain ⟨_, _, rfl, ⟨name, -, -, ⟨⟩⟩, rfl⟩ := h
    exact ⟨_, rfl, _, _, _, _, rfl, rfl⟩
  | statement => exact syntaxTrees_statement h
  | declaration => exact syntaxTrees_declaration h
  | arrayDeclaration =>
    obtain ⟨_, _, rfl, ⟨name, -, -, ⟨⟩⟩, size, _, rfl, hsize, rfl⟩ := h
    refine ⟨_, rfl, ?_⟩
    show (Value.tree _ _).fault? = Option.none
    simp [fault?, faultIn?, hsize.isExprTree.fault?_eq_none]
  | objectDeclaration =>
    obtain ⟨_, _, rfl, ⟨className, -, -, ⟨⟩⟩, _, _, rfl, ⟨name, -, -, ⟨⟩⟩, rfl⟩ := h
    exact ⟨_, rfl, rfl⟩
  | assignment =>
    obtain ⟨target, _, rfl, htarget, _, _, rfl, ⟨arrow, -, -, ⟨⟩⟩, value, _, rfl, hvalue, rfl⟩ := h
    replace htarget := htarget.isExprTree
    exact ⟨_, assignment_ok arrow.text hvalue.1, .of_isStmtTree
      (.assignment htarget hvalue.isExprTree) (.assignment htarget hvalue.isExprTree)⟩
  | forLoop =>
    obtain ⟨_, _, rfl, ⟨name, -, -, ⟨⟩⟩, _, _, rfl, ⟨arrow, -, -, ⟨⟩⟩, start, _, rfl, hstart, stop,
      _, rfl, hstop, _, _, rfl, ⟨body, rfl, hbody, hbody'⟩, rfl⟩ := h
    exact ⟨_, forLoop_ok name.text arrow.text (.list body) hstart.1 hstop.1,
      .of_isStmtTree (.forLoop rfl hstart.isExprTree hstop.isExprTree hbody)
        (.forLoop rfl hstart.isExprTree hstop.isExprTree hbody')⟩
  | whileLoop =>
    obtain ⟨condition, _, rfl, hcondition, _, _, rfl, ⟨body, rfl, hbody, hbody'⟩, rfl⟩ := h
    replace hcondition := hcondition.isExprTree
    exact ⟨_, rfl, .of_isStmtTree (.whileLoop hcondition hbody) (.whileLoop hcondition hbody')⟩
  | repeatLoop =>
    obtain ⟨body, _, rfl, hbody, condition, _, rfl, hcondition, rfl⟩ := h
    exact ⟨_, repeatLoop_ok body condition,
      .of_isStmtTree (.repeatLoop hcondition.isExprTree fun u hu => (hbody u hu).1)
        (.repeatLoop _ _)⟩
  | ifStatement => exact syntaxTrees_ifStatement h
  | callStatement =>
    obtain ⟨_, _, rfl, ⟨name, -, -, ⟨⟩⟩, hrest⟩ := h
    obtain ⟨es, hes⟩ := exists_arguments hrest
    have hexpr := ParsedExpr.isExprTree_toValues es
    refine ⟨_, rfl, ?_⟩
    rw [hes]
    exact .of_isStmtTree (.call rfl hexpr) (.call rfl hexpr)
  | argumentList =>
    obtain ⟨first, rest, rfl, hfirst, hrest⟩ := exists_parts_of_chain h
    obtain ⟨es, hes⟩ :=
      exists_toValues (forall_mem_cons.mpr ⟨hfirst.2, forall_mem_of_many hrest⟩)
    exact ⟨_, rfl, es, by rw [hes]⟩
  | returnStatement =>
    obtain ⟨value, _, rfl, hvalue, rfl⟩ := h
    exact ⟨_, rfl, .of_isStmtTree (.ret hvalue.isExprTree) (.ret hvalue.isExprTree)⟩
  | comment =>
    obtain ⟨v, _, rfl, ⟨text, -, -, ⟨⟩⟩, rfl⟩ := h
    exact ⟨_, rfl, .of_isStmtTree (.comment _) (.comment _)⟩
  | block =>
    refine ⟨_, rfl, _, rfl, forall_mem_filter_isStatement ?_⟩
    rcases h with h | ⟨v, _, rfl, hv, rfl⟩
    · exact forall_mem_of_many (many_or_eq_nil h)
    · exact forall_mem_singleton.mpr hv
  | designator => exact syntaxTrees_designator h
  | range =>
    obtain ⟨_, _, rfl, ⟨-, start, rfl⟩, _, _, rfl, ⟨-, stop, rfl⟩, rfl⟩ := h
    exact ⟨_, rfl, start, stop, rfl⟩
  | logicalOr =>
    obtain ⟨first, rest, rfl, hfirst, hrest⟩ := exists_parts_of_chain h
    exact ⟨_, Build.unlessSingle_leftChain _ _ _,
      isOperandTree_leftChain .or hfirst (forall_mem_of_many hrest)⟩
  | logicalAnd =>
    obtain ⟨first, rest, rfl, hfirst, hrest⟩ := exists_parts_of_chain h
    exact ⟨_, Build.unlessSingle_leftChain _ _ _,
      isOperandTree_leftChain .and hfirst (forall_mem_of_many hrest)⟩
  | logicalNot =>
    rcases h with ⟨v, _, rfl, hv, rfl⟩ | ⟨v, _, rfl, hv, rfl⟩
    all_goals exact ⟨v, rfl, hv⟩
  | comparison =>
    obtain ⟨first, rest, rfl, hfirst, hrest⟩ := exists_parts_of_chain h
    refine ⟨_, Build.unlessSingle_operatorChain _ _ _, ?_⟩
    rcases hrest with ⟨es, rfl⟩ | rfl
    · exact isOperandTree_comparisonChain hfirst es
    · exact hfirst
  | compOp =>
    -- no sign of a comparison is kept
    rcases h with (((((((rfl | rfl) | rfl) | rfl) | rfl) | rfl) | rfl) | rfl) | rfl
    all_goals exact ⟨_, rfl, rfl⟩
  | arithmetic | term =>
    obtain ⟨first, rest, rfl, hfirst, hrest⟩ := exists_parts_of_chain h
    exact ⟨_, Build.unlessSingle_operatorChain _ _ _,
      isOperandTree_signChain hfirst (forall_mem_of_many hrest)⟩
  | factor => exact syntaxTrees_factor h
  | power =>
    obtain ⟨first, rest, rfl, hfirst, hrest⟩ := exists_parts_of_chain h
    obtain ⟨v, hv, hparsed, hexpression⟩ := exists_rightChain hfirst.2 (forall_mem_of_many hrest)
    exact ⟨v, hv, hexpression hfirst.1, hparsed⟩
  | atom => exact syntaxTrees_atom h
  | functionCall =>
    obtain ⟨_, _, rfl, hname, hrest⟩ := h
    obtain ⟨w, rfl⟩ := exists_word_of_gives hname
    obtain ⟨es, hes⟩ := exists_arguments hrest
    exact ⟨_, rfl, rfl, .call w es, by rw [hes]; rfl⟩
  | length =>
    obtain ⟨_, _, rfl, ⟨-, e, rfl⟩, rfl⟩ := h
    exact ⟨_, rfl, rfl, .length e, rfl⟩
  | ceiling =>
    obtain ⟨_, _, rfl, ⟨-, e, rfl⟩, rfl⟩ := h
    exact ⟨_, rfl, rfl, .ceiling e, rfl⟩
  | floor =>
    obtain ⟨_, _, rfl, ⟨-, e, rfl⟩, rfl⟩ := h
    exact ⟨_, rfl, rfl, .floor e, rfl⟩

/-- One occurrence of a repeated phrase. -/
theorem syntaxTrees_one (m : Repetition) (vs : List Value)
    (h : syntaxTrees.OfPhrase m.phrase vs) : syntaxTrees.many m vs := by
  have hpair : ∀ {m : Mark} {u v : Value}, m.terminal.GivesLexed u → v.IsOperandTree →
      ∀ w ∈ [u, v], w.IsParsed := fun hu hv =>
    forall_mem_cons.mpr ⟨⟨_, eq_sign_of_gives hu⟩, forall_mem_singleton.mpr hv.2⟩
  cases m with
  | brackets => trivial
  | names =>
    obtain ⟨_, _, rfl, ⟨name, -, -, ⟨⟩⟩, rfl⟩ := h
    exact ⟨[name.text], rfl⟩
  | classes | subroutines | statements | parameters =>
    obtain ⟨v, _, rfl, hv, rfl⟩ := h
    exact forall_mem_singleton.mpr hv
  | indices =>
    obtain ⟨v, _, rfl, hv, rfl⟩ := h
    exact ⟨cons_ne_nil _ _, forall_mem_singleton.mpr hv⟩
  | arguments | disjuncts | conjuncts =>
    obtain ⟨v, _, rfl, hv, rfl⟩ := h
    exact forall_mem_singleton.mpr hv.2
  | comparisons =>
    obtain ⟨_, _, rfl, rfl, _, _, rfl, ⟨-, e, rfl⟩, rfl⟩ := h
    exact ⟨[e], rfl⟩
  | summands =>
    rcases h with ⟨sign, _, rfl, ht, v, _, rfl, hv, rfl⟩ | ⟨sign, _, rfl, ht, v, _, rfl, hv, rfl⟩
    · exact hpair (m := .sign .plus) ht hv
    · exact hpair (m := .sign .minus) ht hv
  | multiplicands =>
    rcases h with ((⟨sign, _, rfl, ht, v, _, rfl, hv, rfl⟩
      | ⟨sign, _, rfl, ht, v, _, rfl, hv, rfl⟩) | ⟨v, _, rfl, hv, rfl⟩) | ⟨v, _, rfl, hv, rfl⟩
    · exact hpair (m := .star) ht hv
    · exact hpair (m := .slash) ht hv
    · exact forall_mem_singleton.mpr hv.2
    · exact forall_mem_singleton.mpr hv.2
  | exponents =>
    obtain ⟨sign, _, rfl, ht, v, _, rfl, hv, rfl⟩ := h
    exact hpair (m := .circumflex) ht hv

/-- Repetitions are put together from shorter ones. -/
theorem syntaxTrees_append (m : Repetition) (vs ws : List Value) (hvs : syntaxTrees.many m vs)
    (hws : syntaxTrees.many m ws) : syntaxTrees.many m (vs ++ ws) := by
  cases m with
  | brackets => trivial
  | names =>
    obtain ⟨names, rfl⟩ := hvs
    obtain ⟨names', rfl⟩ := hws
    exact ⟨names ++ names', map_append.symm⟩
  | indices => exact ⟨by simp [hvs.1], forall_mem_append.mpr ⟨hvs.2, hws.2⟩⟩
  | comparisons =>
    obtain ⟨es, rfl⟩ := hvs
    obtain ⟨es', rfl⟩ := hws
    exact ⟨es ++ es', flatMap_append.symm⟩
  | _ => exact forall_mem_append.mpr ⟨hvs, hws⟩

/-- **Syntax trees are closed** under all ways of building. -/
theorem isClosed_syntaxTrees : syntaxTrees.IsClosed where
  token _ _ := id
  rule := syntaxTrees_rule
  one := syntaxTrees_one
  more m vs ws hvs hws := syntaxTrees_append m vs ws hvs (syntaxTrees_one m ws hws)

end Typing

/-! ### Programs -/

/-- **Building fails only at whole numbers** with too many digits. -/
theorem Derivation.exists_values_iff {d : Derivation} (hd : d.IsSound) :
    (∃ vs, d.values = .ok vs) ↔ ∀ t ∈ d.tokens, t.isLongWhole = false := by
  refine ⟨fun ⟨vs, hvs⟩ => hd.isLongWhole_of_values hvs, fun hshort => ?_⟩
  obtain ⟨vs, hvs, -⟩ := Typing.exists_values Typing.isClosed_syntaxTrees d hd hshort
  exact ⟨vs, hvs⟩

/-- What a text stands for is a program with an algorithm. -/
theorem programOfText_isProgram {v : Value} (h : programOfText text = .ok v) : v.IsProgram :=
  Typing.isClosed_syntaxTrees.of_programOfText h

/-- The subroutines of a program as nodes. -/
def Value.subroutineNodes (program : Value) : List Value :=
  ((program.field? "algorithm").map (·.itemsOf "subroutines")).getD []

/-- **The subroutines of a text** have all their fields. -/
theorem isSubroutine_of_programOfText {program : Value}
    (h : programOfText text = .ok program) : ∀ v ∈ program.subroutineNodes, v.IsSubroutine := by
  obtain ⟨classes, _, rfl, subroutines, main, rfl, hsubroutines, -⟩ := programOfText_isProgram h
  exact hsubroutines

/-- **Which texts stand for a program**: those that are derived without a whole number of too
    many digits. -/
theorem exists_programOfText_iff : (∃ v, programOfText text = .ok v) ↔
      ∃ d, derive text.toList = .ok d ∧ ∀ t ∈ d.tokens, t.isLongWhole = false := by
  constructor
  · rintro ⟨v, hv⟩
    obtain ⟨d, hd, hvalues⟩ := programOfText_eq_ok_iff.mp hv
    exact ⟨d, hd, (Derivation.exists_values_iff (derive_isSound hd).1).mp ⟨_, hvalues⟩⟩
  · rintro ⟨d, hd, hshort⟩
    obtain ⟨hsound, hstart⟩ := derive_isSound hd
    obtain ⟨vs, hvs⟩ := (Derivation.exists_values_iff hsound).mpr hshort
    obtain ⟨v, rfl⟩ := Derivation.eq_singleton_of_values hstart hvs
    exact ⟨v, programOfText_eq_ok_iff.mpr ⟨d, hd, hvs⟩⟩

/-- A text stands for no program if it is not derived or if one of its numbers is too long. -/
theorem exists_programOfText_error_iff :
    (∃ f, programOfText text = .error f) ↔ (∃ e, parse text = .error e) ∨
      ∃ d, derive text.toList = .ok d ∧ ∃ t ∈ d.tokens, t.isLongWhole = true := by
  rw [exists_error_iff, exists_programOfText_iff, parse]
  cases derive text.toList with
  | error e => exact iff_of_true (by simp) (.inl ⟨e, rfl⟩)
  | ok d =>
    rw [or_iff_right (by rintro ⟨e, ⟨⟩⟩)]
    simp

end Ordo
