import Ordo.Proofs.Derives
import Ordo.Proofs.Parts
import Ordo.Proofs.Writable

namespace Ordo

/-!
# Written programs are read back

* `Level.Derivable` — what is derived where an expression of a level is due;
* `Fragment.Derivable`, `derivable_of_writes` — the lexemes that may stand for a part of a
  program derive it, and the value that is built from them is that part.
-/

open Parameter (toValue)

open Build List

/-! ### Chains of operators -/

variable {vs : List Value} {v : Value} {ls : List Lexeme}

theorem unlessSingle_leftChain_snoc {operator : String} (w : Value)
    (h : unlessSingle vs (leftChain operator) = .ok v) :
    unlessSingle (vs ++ [w]) (leftChain operator)
      = .ok (.node .binaryOp [.str operator, v, w]) := by
  cases vs with
  | nil => simp [unlessSingle] at h
  | cons first rest =>
    rw [unlessSingle_leftChain, Except.ok.injEq] at h
    rw [cons_append, unlessSingle_leftChain, ← h, leftChain, leftChain, foldl_append]
    rfl

theorem operatorChain_snoc (operator : Value → Value) (op w : Value) :
    ∀ (v : Value) (rest : List Value), rest.length % 2 = 0 →
      operatorChain operator v (rest ++ [op, w])
        = .node .binaryOp [operator op, operatorChain operator v rest, w]
  | v, [], _ => rfl
  | v, [_], h => by simp at h
  | v, a :: b :: rest, h => by
    have heven : rest.length % 2 = 0 := by
      simp only [length_cons] at h
      omega
    exact operatorChain_snoc operator op w _ rest heven

theorem unlessSingle_operatorChain_snoc {operator : Value → Value}
    (op w : Value) (h : unlessSingle vs (operatorChain operator) = .ok v)
    (hodd : vs.length % 2 = 1) : unlessSingle (vs ++ [op, w]) (operatorChain operator)
      = .ok (.node .binaryOp [operator op, v, w]) := by
  cases vs with
  | nil => simp [unlessSingle] at h
  | cons first rest =>
    have heven : rest.length % 2 = 0 := by
      simp only [length_cons] at hodd
      omega
    rw [unlessSingle_operatorChain, Except.ok.injEq] at h
    rw [cons_append, unlessSingle_operatorChain, operatorChain_snoc _ _ _ _ _ heven, h]

/-! ### Whole numbers -/

variable (ps : List Parameter) {c : Char} {n : Nat}

theorem digitValue?_of_isDigit (h : c.isDigit = true) :
    Text.digitValue? c = some (c.toNat - 48) := by
  have hrange : '0' ≤ c ∧ c ≤ '9' := by simpa [Char.isDigit, Char.le_def] using h
  have hsmall : c.toNat < 1632 := Nat.lt_of_le_of_lt hrange.2 (by decide)
  rw [Text.digitValue?, if_pos hsmall, if_pos hrange]

theorem isDecimal_of_isDigit (h : c.isDigit = true) : Text.isDecimal c = true := by
  rw [Text.isDecimal, digitValue?_of_isDigit h]
  rfl

theorem digitRunFrom_of_isDigit {cs : List Char} (h : ∀ c ∈ cs, c.isDigit = true)
    (parted : Bool) : Decimal.digitRunFrom parted cs = (cs.map (·.toNat - 48), []) := by
  induction cs generalizing parted with
  | nil => rfl
  | cons c cs ih =>
    have hcs := ih (fun c hc => h c (mem_cons_of_mem _ hc)) true
    simp [Decimal.digitRunFrom, digitValue?_of_isDigit (h c mem_cons_self), hcs]

theorem ofDigits_map (cs : List Char) :
    Decimal.ofDigits (cs.map (·.toNat - 48)) = Nat.ofDigitChars 10 cs 0 := by
  rw [Decimal.ofDigits, foldl_map]
  rfl

/-- A whole number with few enough digits is read from its digits. -/
theorem numberOf_repr (hn : isShort n = true) : numberOf n.repr = .ok (.int n) := by
  have hdigits : ∀ c ∈ Nat.toDigits 10 n, c.isDigit = true :=
    fun c hc => Nat.isDigit_of_mem_toDigits (by decide) (by decide) hc
  obtain ⟨hfirst, hlast⟩ := head?_of_isDecimal fun c hc => isDecimal_of_isDigit (hdigits c hc)
  have hpoint : '.' ∉ Nat.toDigits 10 n := fun h => absurd (hdigits _ h) (by decide)
  have hlimit : ¬ Decimal.digitLimit < (Nat.toDigits 10 n).length := by
    rw [← Nat.toList_repr, String.length_toList]
    simpa [isShort] using hn
  simp [numberOf, Decimal.readWhole, Nat.toList_repr, hpoint,
    bare_of_isDecimal hfirst hlast, sign_of_isDecimal hfirst, Decimal.digitRun,
    digitRunFrom_of_isDigit hdigits, hlimit, ofDigits_map, Nat.ofDigitChars_ten_toDigits,
    Nat.toDigits_ne_nil]

/-! ### Levels -/

/-- A sign that a parse keeps. -/
theorem Operator.derives_sign (o : Operator) (hkept : o.terminal.isKept = true) :
    Derives [.terminal o.terminal] [o.lexeme] [.token o.terminal.name o.sign] := by
  have hspelling : o.terminal.spelling? = some o.sign := by cases o <;> rfl
  have hvalue : o.terminal.value (.token o.terminal.name o.sign)
      = .ok (.token o.terminal.name o.sign) := by cases o <;> rfl
  exact Derives.keep (.fixed hspelling) hkept hvalue

namespace Level

/-- The rule for expressions of a level. -/
def rule : Level → Rule
  | disjunction => .logicalOr
  | conjunction => .logicalAnd
  | comparison => .comparison
  | sum => .arithmetic
  | product => .term
  | signed => .factor
  | operand => .atom

/-- The rule for the operands of a level. -/
def operandRule : Level → Rule
  | disjunction => .logicalAnd
  | conjunction => .logicalNot
  | comparison => .arithmetic
  | sum => .term
  | product => .factor
  | signed => .power
  | operand => .atom

/-- The repetition that follows the first operand, at levels with operators between operands. -/
def repetition? : Level → Option Repetition
  | disjunction => some .disjuncts
  | conjunction => some .conjuncts
  | comparison => some .comparisons
  | sum => some .summands
  | product => some .multiplicands
  | signed | operand => none

/-- Whether a value is made from parts at a level.  Where operators are kept among the parts
    they alternate with operands, so the number of parts is odd. -/
def Makes (level : Level) (vs : List Value) (v : Value) : Prop :=
  ofRule level.rule vs = .ok v ∧ (level.rule ∈ [Rule.comparison, .arithmetic, .term] →
    vs.length % 2 = 1)

/-- What is derived where an expression of a level is due: the operands and operators so far, or
    a single operand where the level has no operators between operands. -/
def Derivable (level : Level) (ls : List Lexeme) (v : Value) : Prop :=
  match level.repetition? with
  | some m => ∃ vs, DerivesChain level.operandRule m ls vs ∧ level.Makes vs v
  | none => Derives [level.rule.symbol] ls [v]

variable {level : Level} {ls us : List Lexeme} {v w : Value}

theorem Derivable.derives (h : level.Derivable ls v) : Derives [level.rule.symbol] ls [v] := by
  cases level with
  | signed | operand => exact h
  | disjunction | conjunction | comparison | sum | product =>
    obtain ⟨vs, hvs, hmakes, -⟩ := h
    exact hvs.rule (by decide) (by decide) hmakes

/-- What binds more tightly may stand as an operand. -/
theorem Derivable.operand (h : level.next.Derivable ls v) :
    Derives [level.operandRule.symbol] ls [v] := by
  cases level with
  | conjunction | signed => exact h.derives.rule (by decide) rfl
  | disjunction | comparison | sum | product | operand => exact h.derives

theorem Derivable.tighter (h : level.next.Derivable ls v) : level.Derivable ls v := by
  have hoperand := h.operand
  cases level with
  | disjunction | conjunction | comparison | sum | product =>
    exact ⟨[v], .inl hoperand, rfl, fun _ => rfl⟩
  | signed => exact hoperand.rule (by decide) rfl
  | operand => exact hoperand

theorem Derivable.expression (h : disjunction.Derivable ls v) :
    Derives [Rule.expression.symbol] ls [v] := h.derives.rule (by decide) rfl

theorem Derivable.condition (h : disjunction.Derivable ls v) :
    Derives [Rule.condition.symbol] ls [v] := h.expression.rule (by decide) rfl

/-- An operation on what is derived so far and one more operand. -/
theorem Derivable.binary (o : Operator) (h : o.level.Derivable ls v)
    (h' : o.level.next.Derivable us w) :
    o.level.Derivable (ls ++ o.lexeme :: us) (.node .binaryOp [.str o.sign, v, w]) := by
  have hoperand := h'.operand
  have hsign := o.derives_sign
  cases o with
  | or | and =>
    obtain ⟨vs, hvs, hmakes, -⟩ := h
    exact ⟨vs ++ [w], hvs.snoc (hoperand.past _) (by decide) (by decide),
      unlessSingle_leftChain_snoc w hmakes, fun h => absurd h (by decide)⟩
  | equal =>
    obtain ⟨vs, hvs, hmakes, hodd⟩ := h
    have hequal : Derives [Rule.compOp.symbol] [Lexeme.mark .equal] [.str "="] :=
      (Derives.mark rfl).rule (by decide) rfl
    exact ⟨_, hvs.snoc (hequal.append hoperand) (by decide) (by decide),
      unlessSingle_operatorChain_snoc _ w hmakes (hodd (by decide)),
      fun _ => by simp [length_append, Nat.add_mod_right, hodd (by decide)]⟩
  | plus | minus | times | divide =>
    obtain ⟨vs, hvs, hmakes, hodd⟩ := h
    exact ⟨_, hvs.snoc ((hsign rfl).append hoperand) (by decide) (by decide),
      unlessSingle_operatorChain_snoc _ w hmakes (hodd (by decide)),
      fun _ => by simp [length_append, Nat.add_mod_right, hodd (by decide)]⟩

theorem Derivable.unary {o : Operator} (ho : o.isSign = true) (h : signed.Derivable ls v) :
    signed.Derivable (o.lexeme :: ls) (.node .unaryOp [.str o.sign, v]) := by
  have hfactor : Derives [Rule.factor.symbol] ls [v] := h
  have hsign := o.derives_sign
  cases o with
  | plus | minus => exact ((hsign rfl).append hfactor).rule (by decide) rfl
  | or | and | equal | times | divide => simp [Operator.isSign] at ho

end Level

/-! ### Parts of programs -/

theorem Expr.toValues_append (es fs : List Expr) :
    Expr.toValues (es ++ fs) = Expr.toValues es ++ Expr.toValues fs := by
  induction es with
  | nil => rfl
  | cons e es ih => simp only [cons_append, Expr.toValues, ih]

theorem Stmt.toValues_append (ss ts : List Stmt) :
    Stmt.toValues (ss ++ ts) = Stmt.toValues ss ++ Stmt.toValues ts := by
  induction ss with
  | nil => rfl
  | cons s ss ih => simp only [cons_append, Stmt.toValues, ih]

/-- The lexemes derive a part of a program, and its value is built from them.  Expressions and
    statements are told apart from other values when larger parts are built. -/
def Fragment.Derivable (ls : List Lexeme) : Fragment → Prop
  | .expr level e => level.Derivable ls e.toValue ∧ e.toValue.isExpression = true
  | .target e => Derives [Rule.designator.symbol] ls [e.toValue] ∧ e.toValue.isExpression = true
  | .indices es => Derives [Repetition.indices.symbol] ls (Expr.toValues es) ∧
      ∃ v vs, Expr.toValues es = v :: vs ∧ v.isExpression = true
  | .listed es => DerivesChain .expression .arguments ls (Expr.toValues es)
  | .arguments es => ∃ vs, DerivesMaybe Rule.argumentList.symbol ls vs ∧
      ∀ name, argumentsOf (name :: vs) = .list (Expr.toValues es)
  | .stmt s => Derives [Rule.statement.symbol] ls [s.toValue] ∧ s.toValue.isStatement = true
  | .stmts ss => DerivesMaybe Repetition.statements.symbol ls (Stmt.toValues ss) ∧
      ∀ v ∈ Stmt.toValues ss, v.isStatement = true
  | .block ss => Derives [Rule.block.symbol] ls [blockValue (Stmt.toValues ss)]
  | .parameter p => Derives [Rule.parameter.symbol] ls [p.toValue]
  | .parameters ps => DerivesChain .parameter .parameters ls (ps.map toValue)
  | .signature ps => ∃ vs, DerivesMaybe Rule.parameterList.symbol ls vs ∧
      parametersOf vs = ps.map toValue ∧ declarationsOf vs = [] ∧
      vs.filter Value.isStatement = []
  | .names xs => Derives [Repetition.names.symbol] ls (xs.map (.token "CNAME"))
  | .classDef c => Derives [Rule.classDefinition.symbol] ls [c.toValue]
  | .classes cs => DerivesMaybe Repetition.classes.symbol ls (cs.map ClassDefinition.toValue)
  | .subroutine s => Derives [Rule.subroutineDefinition.symbol] ls [s.toValue]
  | .subroutines ss =>
      DerivesMaybe Repetition.subroutines.symbol ls (ss.map Subroutine.toValue)
  | .program p => Derives [Rule.program.symbol] ls [p.toValue]

theorem derives_word {x : String} (hx : isName x = true) :
    Derives [.terminal .cname] [Lexeme.word x] [.token "CNAME" x] :=
  Derives.keep (.name hx) rfl rfl

theorem derives_whole (hn : isShort n = true) :
    Derives [.terminal .number] [Lexeme.whole n] [.node .number [.int n]] := by
  have hdigits : n.repr.toList.all Text.isDecimal = true := by
    rw [Nat.toList_repr, all_eq_true]
    intro c hc
    exact isDecimal_of_isDigit (Nat.isDigit_of_mem_toDigits (by decide) (by decide) hc)
  have hne : n.repr.toList ≠ [] := by
    rw [Nat.toList_repr]
    exact Nat.toDigits_ne_nil
  refine Derives.keep (.numeral hne hdigits) rfl ?_
  have hvalue : valueOf (.token Terminal.number.name n.repr) = .ok (.str n.repr) := rfl
  have hnumber : numberIn (.str n.repr) = .ok (.int n) := by
    simp only [numberIn, Value.text?, numberOf_repr hn]
  simp only [Terminal.value, hvalue, hnumber, bind, Except.bind, pure, Except.pure]

theorem derives_arrow {arrow : Lexeme} (h : isArrow arrow = true) :
    Derives [.terminal .assign] [arrow] [.token "ASSIGN" arrow.text] := by
  obtain rfl | rfl : arrow = ⟨.assign, ":="⟩ ∨ arrow = ⟨.assign, "🡨"⟩ := by
    simpa [isArrow] using h
  · exact Derives.keep (.assign (.inl rfl)) rfl rfl
  · exact Derives.keep (.assign (.inr rfl)) rfl rfl

/-- A statement that a semicolon may end. -/
theorem derives_statement {r : Rule} (ended : Bool) (h : Derives [r.symbol] ls [v])
    (hp : Production.IsBraced ⟨.rule .statement, [r.symbol]⟩)
    (hp' : Production.IsBraced ⟨.rule .statement, [r.symbol, .terminal .semicolon]⟩) :
    Derives [Rule.statement.symbol] (ls ++ Lexeme.semicolons ended) [v] := by
  cases ended with
  | true => exact (h.append (Derives.mark rfl)).rule hp' rfl
  | false =>
    simp only [Lexeme.semicolons, Bool.false_eq_true, if_false, append_nil]
    exact h.rule hp rfl

theorem isKind_toValue_parameter (k : Kind) (p : Parameter) :
    p.toValue.isKind k = (Kind.parameter == k) := by
  rw [toValue]
  split <;> rfl

theorem parametersOf_signature : parametersOf [.list (ps.map toValue)] = ps.map toValue := by
  simp [parametersOf, nodesOf, allOf, isKind_toValue_parameter]

theorem declarationsOf_signature : declarationsOf [.list (ps.map toValue)] = [] := by
  cases ps with
  | nil => rfl
  | cons p ps => simp [declarationsOf, nodesOf, allOf, isKind_toValue_parameter]

/-- The parts of a subroutine: its name, what is left of its parameters, and its statements. -/
theorem subroutineDefinition_ok (f : String) {ps ds ws : List Value}
    (hparameters : parametersOf vs = ps) (hdeclarations : declarationsOf vs = ds)
    (hstatements : vs.filter Value.isStatement = []) (hws : ∀ v ∈ ws, v.isStatement = true) :
    ofRule .subroutineDefinition (.token "CNAME" f :: (vs ++ ws))
      = .ok (.node .subroutine [.str f, .list ps, .list ds, .list ws]) := by
  have hps : parametersOf (vs ++ ws) = ps := by
    rw [parametersOf, nodesOf_append, nodesOf_of_isStatement rfl hws, append_nil]
    exact hparameters
  have hds : declarationsOf (vs ++ ws) = ds := by
    rw [declarationsOf, nodesOf_append, nodesOf_of_isStatement rfl hws, append_nil]
    exact hdeclarations
  have hfilter : (vs ++ ws).filter Value.isStatement = ws := by
    rw [filter_append, hstatements, filter_eq_self.mpr hws, nil_append]
  simp only [ofRule, drop_succ_cons, drop_zero, hps, hds, hfilter]
  rfl

theorem mainAlgorithm_ok (hvs : ∀ v ∈ vs, v.isStatement = true) :
    ofRule .mainAlgorithm vs = .ok (.node .mainAlgorithm [.list [], .list vs]) := by
  have hds : declarationsOf vs = [] := nodesOf_of_isStatement rfl hvs
  simp only [ofRule, hds, filter_eq_self.mpr hvs]

theorem derivable_of_writes {part : Fragment} (h : Writes part ls) : part.Derivable ls := by
  induction h with
  | tighter h ih => exact ⟨ih.1.tighter, ih.2⟩
  | parentheses h ih =>
    exact ⟨(ih.1.expression.between .lpar .rpar).rule (by decide) rfl, ih.2⟩
  | binary o ha hb iha ihb => exact ⟨iha.1.binary o ihb.1, rfl⟩
  | unary o ho h ih => exact ⟨ih.1.unary ho, rfl⟩
  | number hn => exact ⟨(derives_whole hn).rule (by decide) rfl, rfl⟩
  | designator h ih => exact ⟨ih.1.rule (by decide) rfl, ih.2⟩
  | @application f es ls hf h ih =>
    obtain ⟨vs, ⟨xs, hxs, hls⟩, hvs⟩ := ih
    refine ⟨Derives.unit .functionCall ?_ (by decide) rfl, rfl⟩
    refine ((derives_word hf).append (hls.between .lpar .rpar)).rule
      (by rcases hxs with rfl | rfl <;> decide) ?_
    rw [Expr.toValue, ← hvs]
    rfl
  | length h ih =>
    refine ⟨Derives.unit .length ?_ (by decide) rfl, rfl⟩
    exact ((ih.1.between .lpar .rpar).past .kwLength).rule (by decide) rfl
  | ceiling h ih =>
    refine ⟨Derives.unit .ceiling ?_ (by decide) rfl, rfl⟩
    exact (ih.1.expression.between .ceilOpen .ceilClose).rule (by decide) rfl
  | floor h ih =>
    refine ⟨Derives.unit .floor ?_ (by decide) rfl, rfl⟩
    exact (ih.1.expression.between .floorOpen .floorClose).rule (by decide) rfl
  | plain hx => exact ⟨(derives_word hx).rule (by decide) rfl, rfl⟩
  | @indexed x es ls hx h ih =>
    obtain ⟨hes, v, vs, hvs, hv⟩ := ih
    refine ⟨((derives_word hx).append hes).rule (by decide) ?_, rfl⟩
    simp only [hvs, singleton_append, ofRule, variableNode_indexed x vs hv]
    simp [Expr.toValue, Expr.toValues, hvs, indicesValue, fieldValue, Name.toValue]
  | @field x f hx hf =>
    exact ⟨((derives_word hx).append ((derives_word hf).past .dot)).rule
      (by decide) rfl, rfl⟩
  | @indexedField x f es ls hx hf h ih =>
    obtain ⟨hes, v, vs, hvs, hv⟩ := ih
    have hfield := ((derives_word hf).append hes).past .dot
    refine ⟨((derives_word hx).append hfield).rule (by decide) ?_, rfl⟩
    simp only [Expr.toValue, hvs]
    rfl
  | @range x a b ls us hx ha hb iha ihb =>
    have hrange : Derives [Rule.range.symbol] (ls ++ Lexeme.mark .dots :: us)
        [.tuple [a.toValue, b.toValue]] :=
      (iha.1.expression.append (ihb.1.expression.past .dots)).rule (by decide) rfl
    have hslice := (derives_word hx).append (hrange.between .lsqb .rsqb)
    rw [append_assoc] at hslice
    exact ⟨hslice.rule (by decide) rfl, rfl⟩
  | oneIndex h ih =>
    exact ⟨(ih.1.expression.between .lsqb .rsqb).many (by decide), _, [], rfl, ih.2⟩
  | moreIndices hs h ihs ih =>
    obtain ⟨hes, v, vs, hvs, hv⟩ := ihs
    refine ⟨?_, v, vs ++ [_], by rw [Expr.toValues_append, hvs]; rfl, hv⟩
    rw [Expr.toValues_append]
    exact (hes.append (ih.1.expression.between .lsqb .rsqb)).many (by decide)
  | oneListed h ih => exact .inl ih.1.expression
  | moreListed hs h ihs ih =>
    rw [Fragment.Derivable, Expr.toValues_append]
    exact ihs.snoc (ih.1.expression.past .comma) (by decide) (by decide)
  | noArguments => exact ⟨[], DerivesMaybe.nil, fun _ => rfl⟩
  | someArguments h ih =>
    exact ⟨[_], (ih.rule (by decide) (by decide) rfl).maybe, fun _ => rfl⟩
  | @assign x e ls us arrow harrow hx he ended ihx ihe =>
    have hassign : Derives [Rule.assignment.symbol] (ls ++ arrow :: us)
        [.node .assignment [x.toValue, e.toValue]] :=
      (ihx.1.append ((derives_arrow harrow).append ihe.1.expression)).rule (by decide)
        (assignment_ok arrow.text ihe.2)
    have hstmt := derives_statement ended hassign (by decide) (by decide)
    rw [append_assoc] at hstmt
    exact ⟨hstmt, rfl⟩
  | @forLoop x a b ss ls us bs arrow harrow hx ha hb hs iha ihb ihs =>
    refine ⟨Derives.unit .forLoop ?_ (by decide) rfl, rfl⟩
    have hbounds := iha.1.expression.append ((ihb.1.expression.append (ihs.past .kwDo)).past .kwTo)
    exact (((derives_word hx).append ((derives_arrow harrow).append hbounds)).past .kwFor).rule
      (by decide) (forLoop_ok x arrow.text _ iha.2 ihb.2)
  | whileLoop hc hs ihc ihs =>
    refine ⟨Derives.unit .whileLoop ?_ (by decide) rfl, rfl⟩
    have hguarded := ihc.1.condition.append ((ihs.past .kwDo).past .rpar)
    exact ((hguarded.past .lpar).past .kwWhile).rule (by decide) rfl
  | @repeatLoop c ss ls bs hne hs hc ihs ihc =>
    have hstmts : Derives [Repetition.statements.symbol] bs (Stmt.toValues ss) := by
      obtain ⟨xs, rfl | rfl, hbs⟩ := ihs.1
      · cases ss with
        | nil => exact absurd rfl hne
        | cons s ss => exact absurd hbs.eq_nil (cons_ne_nil _ _)
      · exact hbs
    refine ⟨Derives.unit .repeatLoop ?_ (by decide) rfl, rfl⟩
    have huntil := (ihc.1.condition.between .lpar .rpar).past .kwUntil
    refine ((hstmts.append huntil).past .kwRepeat).rule (by decide) ?_
    simp [ofRule, lastPart, bind, Except.bind, pure, Except.pure, Stmt.toValue]
  | ifThen hc hs ihc ihs =>
    refine ⟨Derives.unit .ifStatement ?_ (by decide) rfl, rfl⟩
    have hguarded := ihc.1.condition.append ((ihs.past .kwThen).past .rpar)
    exact ((hguarded.past .lpar).past .kwIf).rule (by decide) rfl
  | ifElse hc hs ho ihc ihs iho =>
    refine ⟨Derives.unit .ifStatement ?_ (by decide) rfl, rfl⟩
    have hbranches := ihs.append (iho.past .kwElse)
    have hguarded := ihc.1.condition.append ((hbranches.past .kwThen).past .rpar)
    exact ((hguarded.past .lpar).past .kwIf).rule (by decide) rfl
  | @call f es ls hf h ended ih =>
    have hcall : Derives [Rule.callStatement.symbol]
        (Lexeme.mark .kwCall :: Lexeme.word f :: Lexeme.mark .lpar :: (ls ++ [Lexeme.mark .rpar]))
        [.node .callStatement [.str f, .list (Expr.toValues es)]] := by
      obtain ⟨vs, ⟨xs, hxs, hls⟩, hvs⟩ := ih
      refine (((derives_word hf).append (hls.between .lpar .rpar)).past .kwCall).rule
        (by rcases hxs with rfl | rfl <;> decide) ?_
      rw [← hvs]
      rfl
    have hstmt := derives_statement ended hcall (by decide) (by decide)
    simp only [cons_append, append_assoc] at hstmt
    exact ⟨hstmt, rfl⟩
  | @ret e ls h ended ih =>
    have hret : Derives [Rule.returnStatement.symbol] (Lexeme.mark .kwReturn :: ls)
        [.node .returnStatement [e.toValue]] :=
      (ih.1.expression.past .kwReturn).rule (by decide) rfl
    exact ⟨derives_statement ended hret (by decide) (by decide), rfl⟩
  | noStmts => exact ⟨DerivesMaybe.nil, by simp [Stmt.toValues]⟩
  | moreStmts hs h ihs ih =>
    rw [Fragment.Derivable, Stmt.toValues_append]
    refine ⟨ihs.1.snoc ih.1 (by decide) (by decide), ?_⟩
    simpa [Stmt.toValues, or_imp, forall_and, ih.2] using ihs.2
  | block h ih =>
    have hfilter := filter_eq_self.mpr ih.2
    obtain ⟨xs, hxs, hls⟩ := ih.1
    refine (hls.between .kwBegin .kwEnd).rule (by rcases hxs with rfl | rfl <;> decide) ?_
    simp only [ofRule, hfilter, blockValue]
  | simple hx =>
    exact ((derives_word hx).rule (r := .simpleParameter) (by decide) rfl).rule (by decide) rfl
  | @object c x hc hx =>
    exact (((derives_word hc).append (derives_word hx)).rule (r := .objectParameter) (by decide)
      rfl).rule (by decide) rfl
  | oneParameter h ih => exact .inl ih
  | moreParameters hs h ihs ih =>
    rw [Fragment.Derivable, map_append]
    exact ihs.snoc (ih.past .comma) (by decide) (by decide)
  | noSignature => exact ⟨[], DerivesMaybe.nil, rfl, rfl, rfl⟩
  | @someSignature ps ls h ih =>
    exact ⟨[.list (ps.map toValue)], (ih.rule (by decide) (by decide) rfl).maybe,
      parametersOf_signature ps, declarationsOf_signature ps, rfl⟩
  | oneName hx => exact (derives_word hx).many (by decide)
  | moreNames hs hx ihs =>
    rw [Fragment.Derivable, map_append]
    exact (ihs.append (derives_word hx)).many (by decide)
  | @classDef c xs ls hc h ih =>
    have hnames : Derives [Rule.attributeList.symbol] ls [.list (xs.map .str)] :=
      ih.rule (by decide) (by simp only [ofRule, mapM_valueOf_names]; rfl)
    exact ((derives_word hc).append (hnames.between .lbrace .rbrace)).rule (by decide) rfl
  | noClasses => exact DerivesMaybe.nil
  | moreClasses hs h ihs ih | moreSubroutines hs h ihs ih =>
    rw [Fragment.Derivable, map_append]
    exact ihs.snoc ih (by decide) (by decide)
  | @subroutine f ps ss ls bs hf hps hss ihps ihss =>
    obtain ⟨vs, ⟨xs, hxs, hls⟩, hparameters, hdeclarations, hstatements⟩ := ihps
    obtain ⟨⟨ys, hys, hbs⟩, hbody⟩ := ihss
    have hparts := (derives_word hf).append ((hls.between .lpar .rpar).append
      (hbs.between .kwBegin .kwEnd))
    simp only [cons_append, append_assoc] at hparts
    exact hparts.rule (by rcases hxs with rfl | rfl <;> rcases hys with rfl | rfl <;> decide)
      (subroutineDefinition_ok f hparameters hdeclarations hstatements hbody)
  | noSubroutines => exact DerivesMaybe.nil
  | @program cs rs ss ls us bs hcs hrs hss ihcs ihrs ihss =>
    obtain ⟨xs, hxs, hls⟩ := ihcs
    obtain ⟨ys, hys, hus⟩ := ihrs
    obtain ⟨⟨zs, hzs, hbs⟩, hbody⟩ := ihss
    have hmain : Derives [Rule.mainAlgorithm.symbol]
        (Lexeme.mark .kwBegin :: (bs ++ [Lexeme.mark .kwEnd]))
        [.node .mainAlgorithm [.list [], .list (Stmt.toValues ss)]] :=
      (hbs.between .kwBegin .kwEnd).rule (by rcases hzs with rfl | rfl <;> decide)
        (mainAlgorithm_ok hbody)
    have halgorithm := (hus.append hmain).rule (r := .algorithm)
      (by rcases hys with rfl | rfl <;> decide)
      (algorithm_ok (by simp [Subroutine.toValue, Value.isKind]) _)
    exact (hls.append halgorithm).rule (by rcases hxs with rfl | rfl <;> decide)
      (program_ok (by simp [ClassDefinition.toValue, Value.isKind]) _)

/-! ### Texts of programs -/

/-- What the only derivation of some lexemes is built into is what their text stands for. -/
theorem programOfText_of_derives {text : String}
    (h : Derives [Rule.program.symbol] ls [v]) (htext : SpreadOut ls text) :
    programOfText text = .ok v := by
  obtain ⟨ts, hts, hderive⟩ := derive_spreadOut htext h.free
  obtain ⟨ds, hobeys, hsymbols, htokens, hvalues⟩ := h.derivation ts hts
  obtain ⟨d, rfl, hsymbol⟩ := map_eq_singleton_iff.mp hsymbols
  simp only [Derivation.ObeyAll, and_true] at hobeys
  simp only [Derivation.tokensAll, append_nil] at htokens
  have hlegal := hobeys.mono fun _ hp => hp.1
  have hread := readTokens_program hlegal (d.settled_of_braced hobeys) hsymbol
  rw [htokens] at hread
  refine programOfText_eq_ok_iff.mpr ⟨_, hderive _ hread, ?_⟩
  exact (Derivation.values_rule_eq_ok_iff rfl).mpr ⟨[v], v, hvalues, rfl, rfl⟩

/-- **A written program is read back.**  Every program that can be written has a text, and
    whatever layout, semicolons and parentheses a text of it has, parsing the text and building
    its syntax tree gives exactly that program. -/
theorem programOfText_written (p : Program) (hp : p.isWritable = true) :
    (∃ text, p.Written text) ∧ ∀ text, p.Written text → programOfText text = .ok p.toValue := by
  refine ⟨Program.exists_written hp, ?_⟩
  rintro text ⟨ls, hwrites, hspread⟩
  exact programOfText_of_derives (derivable_of_writes hwrites) hspread

/-- A variable by its name alone. -/
def Expr.plain (x : String) : Expr := .var (.text x) [] none []

/-- The right operand of a difference keeps its parentheses, and a product binds more tightly. -/
theorem programOfText_written_difference :
    (⟨[], [], [], [.assign (.plain "x") (.binary "-" (.plain "a")
      (.binary "*" (.binary "-" (.plain "b") (.plain "c")) (.number (.whole 2))))]⟩ :
        Program).isWritable = true ∧
    programOfText "begin x := a - ( b - c ) * 2 ; end " =
      .ok (⟨[], [], [], [.assign (.plain "x") (.binary "-" (.plain "a")
        (.binary "*" (.binary "-" (.plain "b") (.plain "c")) (.number (.whole 2))))]⟩ :
          Program).toValue := by
  have hplain {x : String} (hx : isName x = true) :
      Writes (.expr .operand (.plain x)) [Lexeme.word x] := .designator (.plain hx)
  have hinner := Writes.binary .minus ((hplain (x := "b") rfl).loosen _)
    ((hplain (x := "c") rfl).loosen _)
  have hproduct := Writes.binary .times ((Writes.parentheses
    (.tighter (.tighter (.tighter hinner)))).loosen _) ((Writes.number (n := 2) rfl).loosen _)
  have hvalue := Writes.binary .minus ((hplain (x := "a") rfl).loosen _) hproduct
  have hassign := Writes.assign ⟨.assign, ":="⟩ rfl (.plain (x := "x") rfl)
    (.tighter (.tighter (.tighter hvalue))) true
  have hprogram := Writes.program .noClasses .noSubroutines (.moreStmts .noStmts hassign)
  refine ⟨by decide, (programOfText_written _ ?_).2 _ ⟨_, hprogram, spreadOut_spaced _⟩⟩
  decide

end Ordo
