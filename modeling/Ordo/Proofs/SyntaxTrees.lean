import Ordo.Analysis.Data
import Ordo.Classification
import Ordo.Proofs.Results

namespace Ordo

/-!
# Syntax trees as data

Analyses of data ask for what they need on the way, and fail where it is missing.  A syntax tree
has all that they ask for, so on syntax trees they do what the analyses of subroutines and
programs do, and fail only at repeat loops.

* `Value.IsExprTree`, `Value.IsStmtTree`, `Value.IsSubroutineTree`, `Value.IsProgramTree` — the
  values that are syntax trees;
* `Value.IsExprTree.shortFault?_eq_none`, `Value.IsExprTree.containsFault?_eq_none` — expressions
  can be shown and searched;
* `Value.bodyFault?_eq`, `Value.bodyFault?_eq_none` — a walk through statements fails only at
  repeat loops, if it enters them;
* `Analysis.loops_eq`, `Analysis.selfCalls_eq`, `Analysis.baseCase_eq`,
  `Analysis.conditionals_eq`, `SubroutineClass.ofData_eq`, `Classification.ofData_eq` — the
  analyses of syntax trees.
-/

open List Option

open Stmt (anyRepeat ofItems ofValue)

open Subroutine (ofValue? classify)

namespace Value

/-! ### Syntax trees -/

/-- Texts, as strings or tokens. -/
def IsText (v : Value) : Prop := v.text?.isSome = true

/-- Indices: a list, or nothing. -/
def IsIndexList (v : Value) : Prop := v = none ∨ ∃ vs, v = list vs

/-- Expressions.  A sign that is left over from a chain may stand in the place of one. -/
inductive IsExprTree : Value → Prop
  | number (n : Numeral) : IsExprTree (node .number [n.toValue])
  | boolean (b : Bool) : IsExprTree (node .boolean [bool b])
  | null : IsExprTree (node .null [])
  | var {name indices field fieldIndices start stop : Value} {ranged : Bool}
      (hname : name.IsText) (hfield : field = none ∨ field.IsText)
      (hindices : indices.IsIndexList) (hitems : ∀ v ∈ indices.items, IsExprTree v)
      (hfieldIndices : fieldIndices.IsIndexList)
      (hfieldItems : ∀ v ∈ fieldIndices.items, IsExprTree v)
      (hstart : ranged = true → IsExprTree start) (hstop : ranged = true → IsExprTree stop) :
      IsExprTree (node .var [name, indices, field, fieldIndices, bool ranged, start, stop])
  | binary {operator left right : Value} (hoperator : operator.IsText)
      (hleft : IsExprTree left) (hright : IsExprTree right) :
      IsExprTree (node .binaryOp [operator, left, right])
  | unary {operator operand : Value} (hoperator : operator.IsText) (h : IsExprTree operand) :
      IsExprTree (node .unaryOp [operator, operand])
  | call {name : Value} {arguments : List Value} (hname : name.IsText)
      (harguments : ∀ v ∈ arguments, IsExprTree v) :
      IsExprTree (node .functionCall [name, list arguments])
  | length {operand : Value} (h : IsExprTree operand) : IsExprTree (node .length [operand])
  | ceiling {operand : Value} (h : IsExprTree operand) : IsExprTree (node .ceiling [operand])
  | floor {operand : Value} (h : IsExprTree operand) : IsExprTree (node .floor [operand])
  | leftover {v : Value} (h : v.IsText) : IsExprTree v

/-- Statements.  Nothing is asked of a repeat loop, which no analysis enters. -/
inductive IsStmtTree : Value → Prop
  | assignment {target value : Value} (htarget : target.IsExprTree) (hvalue : value.IsExprTree) :
      IsStmtTree (node .assignment [target, value])
  | forLoop {name start stop : Value} {body : List Value} (hname : name.IsText)
      (hstart : start.IsExprTree) (hstop : stop.IsExprTree) (hbody : ∀ v ∈ body, IsStmtTree v) :
      IsStmtTree (node .forLoop [name, start, stop, blockValue body])
  | whileLoop {condition : Value} {body : List Value} (hcondition : condition.IsExprTree)
      (hbody : ∀ v ∈ body, IsStmtTree v) :
      IsStmtTree (node .whileLoop [condition, blockValue body])
  | repeatLoop (body condition : Value) : IsStmtTree (node .repeatLoop [body, condition])
  | ifThen {condition : Value} {body : List Value} (hcondition : condition.IsExprTree)
      (hbody : ∀ v ∈ body, IsStmtTree v) :
      IsStmtTree (node .ifStatement [condition, blockValue body, none])
  | ifElse {condition : Value} {body otherwise : List Value} (hcondition : condition.IsExprTree)
      (hbody : ∀ v ∈ body, IsStmtTree v) (hotherwise : ∀ v ∈ otherwise, IsStmtTree v) :
      IsStmtTree (node .ifStatement [condition, blockValue body, blockValue otherwise])
  | call {name : Value} {arguments : List Value} (hname : name.IsText)
      (harguments : ∀ v ∈ arguments, v.IsExprTree) :
      IsStmtTree (node .callStatement [name, list arguments])
  | ret {value : Value} (hvalue : value.IsExprTree) : IsStmtTree (node .returnStatement [value])
  | comment (text : Value) : IsStmtTree (node .comment [text])

/-- Parameters. -/
def IsParameterTree (v : Value) : Prop :=
  ∃ name type className dimensions, v = node .parameter [name, type, className, dimensions]

/-- Subroutines.  Nothing is asked of the declarations, which no analysis looks at. -/
inductive IsSubroutineTree : Value → Prop
  | mk {name declarations : Value} {parameters body : List Value} (hname : name.IsText)
      (hparameters : ∀ v ∈ parameters, v.IsParameterTree) (hbody : ∀ v ∈ body, v.IsStmtTree) :
      IsSubroutineTree (node .subroutine [name, list parameters, declarations, list body])

/-- Programs.  Nothing is asked of classes and declarations. -/
inductive IsProgramTree : Value → Prop
  | mk {classes declarations : Value} {subroutines body : List Value}
      (hsubroutines : ∀ v ∈ subroutines, v.IsSubroutineTree) (hbody : ∀ v ∈ body, v.IsStmtTree) :
      IsProgramTree (node .program [classes,
        node .algorithm [list subroutines, node .mainAlgorithm [declarations, list body]]])

/-! ### Expressions -/

/-- A variable alone. -/
theorem IsExprTree.plainVar {name : Value} (hname : name.IsText) :
    IsExprTree (node .var [name, none, none, none, bool false, none, none]) := by
  refine .var hname (.inl rfl) (.inl rfl) ?_ (.inl rfl) ?_ ?_ ?_
  all_goals simp [items]

variable {v : Value} {vs : List Value} {w : Walk}

attribute [local simp] containsFault? nodeFault? shortFault? fault? isTrue

theorem IsText.fault?_eq_none (h : v.IsText) : v.fault? = Option.none := by
  cases v <;> simp_all [IsText, text?, fault?]

/-- An expression can be shown as a node. -/
theorem IsExprTree.fault?_eq_none (h : v.IsExprTree) : v.fault? = Option.none := by
  induction h with
  | number n => cases n <;> rfl
  | boolean b => rfl
  | null => rfl
  | @var name indices field fieldIndices start stop ranged hname hfield hindices hitems
      hfieldIndices hfieldItems hstart hstop _ _ ihstart ihstop =>
    have hfieldFault : field.fault? = Option.none := by
      rcases hfield with rfl | hfield
      · rfl
      · exact hfield.fault?_eq_none
    rw [fault?, nodeFault?, hname.fault?_eq_none, hfieldFault]
    cases ranged with
    | false => simp
    | true => simp [ihstart rfl, ihstop rfl]
  | binary hoperator _ _ ihleft ihright =>
    simp [hoperator.fault?_eq_none, ihleft, ihright]
  | unary hoperator _ ih => simp [hoperator.fault?_eq_none, ih]
  | call hname _ _ => simp [sizeFault?, hname.fault?_eq_none]
  | length _ ih | ceiling _ ih | floor _ ih => simp [ih]
  | leftover h => exact h.fault?_eq_none

/-- What reports show an expression as is a text. -/
theorem IsExprTree.isText_shortForm (h : v.IsExprTree) :
    (Expr.ofValue v).shortForm.toValue.IsText := by
  cases h with
  | number n => cases n <;> rfl
  | @var name indices field fieldIndices start stop ranged hname hfield hindices =>
    have hplain : (indices.isTrue && !indices.hasItems) = false := by
      rcases hindices with rfl | ⟨vs, rfl⟩
      · rfl
      · simp [hasItems]
    rw [Expr.ofValue, if_neg (by rw [hplain]; exact Bool.false_ne_true)]
    have hshown : (Name.ofValue name).toValue.IsText := by rwa [Name.toValue_ofValue]
    cases ranged <;> exact hshown
  | leftover h => cases v <;> simp_all [IsText, text?] <;> rfl
  | _ => rfl

/-- Expressions that are shown as texts can be joined. -/
theorem joinFault?_eq_none {form : Expr → Name}
    (h : ∀ v ∈ vs, (form (Expr.ofValue v)).toValue.IsText) (index : Nat) :
    joinFault? form index vs = Option.none := by
  induction vs generalizing index with
  | nil => rfl
  | cons v vs ih =>
    obtain ⟨hv, hvs⟩ := forall_mem_cons.mp h
    obtain ⟨s, hs⟩ := isSome_iff_exists.mp hv
    rw [joinFault?, hs]
    exact ih hvs (index + 1)

theorem shortFaultIn?_eq_none (h : ∀ v ∈ vs, v.shortFault? = Option.none) :
    shortFaultIn? vs = Option.none := by
  induction vs with
  | nil => rfl
  | cons v vs ih =>
    obtain ⟨hv, hvs⟩ := forall_mem_cons.mp h
    rw [shortFaultIn?, hv, ih hvs]
    rfl

/-- **An expression can be shown in reports.** -/
theorem IsExprTree.shortFault?_eq_none (h : v.IsExprTree) : v.shortFault? = Option.none := by
  have hform : ∀ {u : Value}, u.IsExprTree → u.formFault? Expr.shortForm = Option.none :=
    fun hu => hu.isText_shortForm.fault?_eq_none
  induction h with
  | number n => cases n <;> rfl
  | boolean b => rfl
  | null => rfl
  | var => rfl
  | binary hoperator hleft hright ihleft ihright =>
    simp [ihleft, ihright, hform hleft, hform hright, hoperator.fault?_eq_none]
  | unary hoperator hoperand ih =>
    simp [ih, hform hoperand, hoperator.fault?_eq_none]
  | call hname harguments ih =>
    have hjoin := joinFault?_eq_none (fun v hv => (harguments v hv).isText_shortForm) 0
    simp [shortItemsFault?, shortFaultIn?_eq_none ih, hjoin, hname.fault?_eq_none]
  | length h _ => exact h.length.fault?_eq_none
  | ceiling h _ => exact h.ceiling.fault?_eq_none
  | floor h _ => exact h.floor.fault?_eq_none
  | @leftover v h => cases v <;> simp_all [IsText, text?, shortFault?, fault?]

theorem containsFaultIn?_eq_none {name : Name} (h : ∀ v ∈ vs, v.containsFault? name = Option.none) :
    containsFaultIn? name vs = Option.none := by
  induction vs with
  | nil => rfl
  | cons v vs ih =>
    obtain ⟨hv, hvs⟩ := forall_mem_cons.mp h
    rw [containsFaultIn?, hv, ih hvs, ite_self]
    rfl

variable (name : Name)

/-- **An expression can be searched for calls.** -/
theorem IsExprTree.containsFault?_eq_none (h : v.IsExprTree) :
    v.containsFault? name = Option.none := by
  induction h with
  | var _ _ hindices _ _ _ _ _ ihitems =>
    rcases hindices with rfl | ⟨vs, rfl⟩
    · rfl
    · have hitems : containsFaultIn? name vs = Option.none := containsFaultIn?_eq_none ihitems
      simp [containsItemsFault?, hitems]
  | binary _ _ _ ihleft ihright => simp [ihleft, ihright]
  | unary _ _ ih | ceiling _ ih | floor _ ih => simpa using ih
  | call _ _ ih => simp [containsItemsFault?, containsFaultIn?_eq_none ih]
  | @leftover v h => cases v <;> simp_all [IsText, text?, containsFault?]
  | _ => rfl

/-- The arguments of a call in an expression are expressions. -/
theorem IsExprTree.argumentsOf (h : v.IsExprTree) :
    ∃ vs, Analysis.argumentsOf name v = list vs ∧ ∀ u ∈ vs, u.IsExprTree := by
  induction h with
  | binary _ _ _ ihleft ihright =>
    rw [Analysis.argumentsOf]
    split
    · exact ihleft
    · exact ihright
  | unary _ _ ih => exact ih
  | @call f arguments _ harguments _ =>
    rw [Analysis.argumentsOf]
    split
    · exact ⟨arguments, rfl, harguments⟩
    · exact ⟨[], rfl, by simp⟩
  | @leftover v h => cases v <;> simp_all [IsText, text?, Analysis.argumentsOf]
  | _ => exact ⟨[], rfl, by simp⟩

theorem argumentsFault?_eq_none (h : ∀ v ∈ vs, v.IsExprTree) :
    Analysis.argumentsFault? (list vs) = Option.none :=
  shortFaultIn?_eq_none fun v hv => (h v hv).shortFault?_eq_none

theorem IsExprTree.callFault?_eq_none (h : v.IsExprTree) :
    Analysis.callFault? name v = Option.none := by
  obtain ⟨vs, hvs, hexpr⟩ := h.argumentsOf name
  rw [Analysis.callFault?, hvs, argumentsFault?_eq_none hexpr, ite_self]

/-! ### Walks -/

/-- A walk that enters repeat loops and fails at no statement for another reason. -/
structure Walk.Passes (w : Walk) : Prop where
  entersRepeat : w.entersRepeat = true
  visit : ∀ v, v.IsStmtTree → w.visit v = Option.none

/-- What is wrong with a body for a walk: a repeat loop, if there is one. -/
def repeatFault? (met : Bool) : Option AccessError := if met then some repeatFault else Option.none

theorem repeatFault?_or (a b : Bool) :
    (repeatFault? a).or (repeatFault? b) = repeatFault? (a || b) := by
  cases a <;> rfl

theorem walkFaultIn?_eq
    (h : ∀ v ∈ vs, walkFault? w v = repeatFault? (w.entersRepeat && (ofValue v).hasRepeat)) :
    walkFaultIn? w vs
      = repeatFault? (w.entersRepeat && anyRepeat (Stmt.ofValues vs)) := by
  induction vs with
  | nil => rw [Stmt.ofValues, anyRepeat, Bool.and_false]; rfl
  | cons v vs ih =>
    obtain ⟨hv, hvs⟩ := forall_mem_cons.mp h
    rw [walkFaultIn?, hv, ih hvs, repeatFault?_or, Stmt.ofValues, anyRepeat,
      Bool.and_or_distrib_left]

theorem blockFault?_eq
    (h : ∀ v ∈ vs, walkFault? w v = repeatFault? (w.entersRepeat && (ofValue v).hasRepeat)) :
    blockFault? w (blockValue vs)
      = repeatFault? (w.entersRepeat && anyRepeat (Stmt.ofBlock (blockValue vs))) := by
  rw [blockValue, blockFault?, bodyFault?, walkFaultIn?_eq h, Stmt.ofBlock, ofItems]

/-- A walk that fails at no statement itself fails only at repeat loops, if it enters them. -/
theorem walkFault?_eq (hw : ∀ v, v.IsStmtTree → w.visit v = Option.none) (h : v.IsStmtTree) :
    walkFault? w v = repeatFault? (w.entersRepeat && (ofValue v).hasRepeat) := by
  -- each case uses what the walk does at the statement first, and then at its bodies
  have hvisit := hw v h
  have hsimple : Option.none = repeatFault? (w.entersRepeat && false) := by
    rw [Bool.and_false]
    rfl
  induction h with
  | forLoop _ _ _ hbody ih | whileLoop _ hbody ih =>
    have hinner := blockFault?_eq fun v hv => ih v hv (hw v (hbody v hv))
    rw [walkFault?, hvisit, hinner, none_or]
    rfl
  | repeatLoop body condition =>
    rw [walkFault?, hvisit, none_or, ofValue, Stmt.hasRepeat, Bool.and_true]
    rfl
  | ifThen _ hbody ih =>
    have hinner := blockFault?_eq fun v hv => ih v hv (hw v (hbody v hv))
    rw [walkFault?, hvisit, hinner, none_or]
    exact or_none
  | ifElse _ hbody hotherwise ih ihotherwise =>
    have hinner := blockFault?_eq fun v hv => ih v hv (hw v (hbody v hv))
    have hother := blockFault?_eq fun v hv => ihotherwise v hv (hw v (hotherwise v hv))
    have htrue : ∀ vs, (blockValue vs).isTrue = true := fun _ => rfl
    rw [walkFault?, hvisit, hinner, hother, if_pos (htrue _), none_or, repeatFault?_or,
      ofValue, if_pos (htrue _), Stmt.hasRepeat, Bool.and_or_distrib_left]
  | _ => exact hvisit.trans hsimple

/-- **A walk through statements** fails only at repeat loops. -/
theorem bodyFault?_eq (hw : w.Passes) (h : ∀ v ∈ vs, v.IsStmtTree) :
    bodyFault? w (list vs) = repeatFault? (anyRepeat (ofItems (list vs))) := by
  rw [bodyFault?, walkFaultIn?_eq fun v hv => walkFault?_eq hw.visit (h v hv), hw.entersRepeat,
    Bool.true_and, ofItems]

/-- A walk that does not enter repeat loops does not fail. -/
theorem bodyFault?_eq_none (hw : ∀ v, v.IsStmtTree → w.visit v = Option.none)
    (hrepeat : w.entersRepeat = false) (h : ∀ v ∈ vs, v.IsStmtTree) :
    bodyFault? w (list vs) = Option.none := by
  rw [bodyFault?, walkFaultIn?_eq fun v hv => walkFault?_eq hw (h v hv), hrepeat, Bool.false_and]
  rfl

theorem Walk.passes_plain : Walk.plain.Passes := ⟨rfl, fun _ _ => rfl⟩

theorem passes_argumentsWalk : (Analysis.argumentsWalk name).Passes where
  entersRepeat := rfl
  visit v h := by
    cases h with
    | assignment _ hvalue | ret hvalue => exact hvalue.callFault?_eq_none name
    | call _ harguments => simp [Analysis.argumentsWalk, argumentsFault?_eq_none harguments]
    | _ => rfl

theorem passes_recursionWalk : (recursionWalk name).Passes where
  entersRepeat := rfl
  visit v h := by
    cases h with
    | assignment _ hvalue | ret hvalue => exact hvalue.containsFault?_eq_none name
    | ifThen hcondition _ | ifElse hcondition _ _ => exact hcondition.containsFault?_eq_none name
    | _ => rfl

/-- The conditions of statements can be shown, and their branches searched. -/
theorem visit_conditionsWalk (h : v.IsStmtTree) :
    (Analysis.conditionsWalk Option.none).visit v = Option.none := by
  cases h with
  | ifThen hcondition _ =>
    simp [Analysis.conditionsWalk, hcondition.shortFault?_eq_none, Analysis.blockFault?,
      blockValue, iterateFault?]
  | ifElse hcondition _ _ =>
    simp [Analysis.conditionsWalk, hcondition.shortFault?_eq_none, Analysis.blockFault?,
      blockValue, iterateFault?]
  | _ => rfl

theorem returnFault?_eq_none (h : ∀ v ∈ vs, v.IsStmtTree) :
    Analysis.returnFault? vs = Option.none := by
  induction vs with
  | nil => rfl
  | cons v vs ih =>
    obtain ⟨hv, hvs⟩ := forall_mem_cons.mp h
    cases hv with
    | ret hvalue => exact hvalue.shortFault?_eq_none
    | _ => exact ih hvs

/-- The search for a base case among statements does not fail. -/
theorem baseCaseFault?_eq_none (h : ∀ v ∈ vs, v.IsStmtTree) :
    Analysis.baseCaseFault? name Option.none vs = Option.none := by
  induction vs with
  | nil => rfl
  | cons v vs ih =>
    obtain ⟨hv, hvs⟩ := forall_mem_cons.mp h
    have hbranch : ∀ {condition otherwise : Value} {body : List Value}, condition.IsExprTree →
        (∀ v ∈ body, v.IsStmtTree) → Analysis.baseCaseFault? name Option.none
          (node .ifStatement [condition, blockValue body, otherwise] :: vs) = Option.none := by
      intro condition otherwise body hcondition hbody
      show (if Stmt.anyDirectCall name (Stmt.ofBlock (blockValue body)) then
          Analysis.baseCaseFault? name Option.none vs
        else condition.shortFault?.or (Analysis.returnFault? body)) = Option.none
      rw [ih hvs, hcondition.shortFault?_eq_none, returnFault?_eq_none hbody, or_none,
        ite_self]
    cases hv with
    | ifThen hcondition hbody | ifElse hcondition hbody _ => exact hbranch hcondition hbody
    | _ => exact ih hvs

end Value

/-! ### Analyses of syntax trees -/

section Subroutines

variable {v : Value} {s : Subroutine}

/-- The subroutine whose calls are looked for, unless a repeat loop stops the search. -/
theorem Analysis.caller_eq (h : v.IsSubroutineTree) (hs : ofValue? v = some s) :
    caller v = check (Value.repeatFault? (anyRepeat s.body)) >>= fun _ =>
      pure ⟨s.name, [], [], s.body⟩ := by
  obtain @⟨name, declarations, parameters, body, -, -, hbody⟩ := h
  obtain rfl := Option.some.inj hs
  show (check ((Value.list body).bodyFault? .plain) >>= fun _ =>
    check ((Value.list body).bodyFault? (argumentsWalk (.ofValue name))) >>= fun _ => _) = _
  rw [Value.bodyFault?_eq Value.Walk.passes_plain hbody,
    Value.bodyFault?_eq (Value.passes_argumentsWalk _) hbody]
  cases anyRepeat (ofItems (.list body)) <;> rfl

/-- **The calls of a syntax tree** to itself are those of its subroutine. -/
theorem Analysis.selfCalls_eq (h : v.IsSubroutineTree) (hs : ofValue? v = some s) :
    Analysis.selfCalls v = s.selfCalls.mapError fun _ => .access Value.repeatFault := by
  unfold Analysis.selfCalls
  rw [caller_eq h hs]
  show _ = (whenWalkable s.body _).mapError _
  unfold whenWalkable
  cases hrepeat : anyRepeat s.body with
  | true => rfl
  | false =>
    show (whenWalkable s.body _).mapError _ = _
    unfold whenWalkable
    rw [hrepeat]
    rfl

/-- **The base case of a syntax tree** is that of its subroutine. -/
theorem Analysis.baseCase_eq (h : v.IsSubroutineTree) (hs : ofValue? v = some s) :
    Analysis.baseCase v = .ok s.baseCase := by
  obtain @⟨name, declarations, parameters, body, -, -, hbody⟩ := h
  obtain rfl := Option.some.inj hs
  show (check (baseCaseFault? (.ofValue name) none body) >>= fun _ => _) = _
  rw [Value.baseCaseFault?_eq_none _ hbody]
  rfl

/-- **The conditionals of a syntax tree** are those of its subroutine. -/
theorem Analysis.conditionals_eq (h : v.IsSubroutineTree)
    (hs : ofValue? v = some s) : Analysis.conditionals v = .ok s.conditionals := by
  obtain @⟨name, declarations, parameters, body, -, -, hbody⟩ := h
  obtain rfl := Option.some.inj hs
  show (check ((Value.list body).bodyFault? (conditionsWalk none)) >>= fun _ => _) = _
  rw [Value.bodyFault?_eq_none (fun _ => Value.visit_conditionsWalk) rfl hbody]
  rfl

theorem Value.IsParameterTree.exists_name (h : v.IsParameterTree) :
    ∃ name p, v.part "name" = .ok name ∧ Parameter.ofValue? v = some p ∧
      p.name = .ofValue name := by
  obtain ⟨name, type, className, dimensions, rfl⟩ := h
  obtain ⟨p, hp, hname⟩ : ∃ p, Parameter.ofValue? (.node .parameter
      [name, type, className, dimensions]) = some p ∧ p.name = .ofValue name := by
    unfold Parameter.ofValue?
    split
    case h_1 heq | h_2 heq =>
      obtain ⟨rfl, -⟩ := by simpa using heq
      exact ⟨_, rfl, rfl⟩
    case h_3 => exact ⟨_, rfl, rfl⟩
  exact ⟨name, p, rfl, hp, hname⟩

/-- The names of parameters in data are those of the parameters. -/
theorem exists_parameterNames {parameters : List Value} (h : ∀ v ∈ parameters, v.IsParameterTree) :
    ∃ names, parameters.mapM (·.part "name") = .ok names ∧
      names.map Name.ofValue = (parameters.filterMap Parameter.ofValue?).map Parameter.name := by
  induction parameters with
  | nil => exact ⟨[], rfl, rfl⟩
  | cons v parameters ih =>
    obtain ⟨hv, hparameters⟩ := forall_mem_cons.mp h
    obtain ⟨name, p, hname, hp, hpname⟩ := hv.exists_name
    obtain ⟨names, hnames, hmap⟩ := ih hparameters
    refine ⟨name :: names, ?_, ?_⟩
    · rw [mapM_cons, hname, hnames]
      rfl
    · rw [filterMap_cons_some hp, map_cons, map_cons, hmap, hpname]

/-- **The classification of a syntax tree** is that of its subroutine. -/
theorem SubroutineClass.ofData_eq (h : v.IsSubroutineTree) (hs : ofValue? v = some s) :
    SubroutineClass.ofData v = s.classify.mapError fun _ => Value.repeatFault := by
  obtain @⟨name, declarations, parameters, body, -, hparameters, hbody⟩ := h
  obtain rfl := Option.some.inj hs
  show (Value.unlessFault ((Value.list body).bodyFault? .plain) () >>= fun _ =>
      Value.unlessFault ((Value.list body).bodyFault? (recursionWalk (.ofValue name))) () >>=
        fun _ => _)
    = (whenWalkable (ofItems (.list body)) _).mapError _
  rw [Value.bodyFault?_eq Value.Walk.passes_plain hbody,
    Value.bodyFault?_eq (Value.passes_recursionWalk _) hbody]
  unfold whenWalkable
  cases anyRepeat (ofItems (.list body)) with
  | true => rfl
  | false =>
    obtain ⟨names, hnames, hmap⟩ := exists_parameterNames hparameters
    show ((parameters.mapM (·.part "name")) >>= fun names => _) = _
    rw [hnames]
    show Except.ok (SubroutineClass.mk _ (names.map Name.ofValue) _ _) = _
    rw [hmap]
    rfl

end Subroutines

/-! ### Programs -/

variable {v : Value}

theorem Value.IsSubroutineTree.exists_ofValue? (h : v.IsSubroutineTree) :
    ∃ s, ofValue? v = some s := by
  cases h
  exact ⟨_, rfl⟩

/-- The classifications of several syntax trees are those of their subroutines. -/
theorem SubroutineClass.mapM_ofData_eq {vs : List Value} (h : ∀ v ∈ vs, v.IsSubroutineTree) :
    vs.mapM ofData = ((vs.filterMap ofValue?).mapM classify).mapError
      fun _ => Value.repeatFault := by
  induction vs with
  | nil => rfl
  | cons v vs ih =>
    obtain ⟨hv, hvs⟩ := forall_mem_cons.mp h
    obtain ⟨s, hs⟩ := hv.exists_ofValue?
    rw [filterMap_cons_some hs, mapM_cons, mapM_cons, ofData_eq hv hs, ih hvs]
    cases s.classify with
    | error e => rfl
    | ok c => cases (vs.filterMap ofValue?).mapM classify <;> rfl

/-- **The classification of a program's syntax tree** is that of the program. -/
theorem Classification.ofData_eq (h : v.IsProgramTree) {p : Program} (hp : Program.read v = .ok p) :
    ofData v = p.classify.mapError fun _ => Value.repeatFault := by
  obtain @⟨classes, declarations, subroutines, body, hsubroutines, hbody⟩ := h
  obtain rfl := Except.ok.inj hp
  show (Value.unlessFault ((Value.list body).bodyFault? .plain) () >>= fun _ =>
      subroutines.mapM SubroutineClass.ofData >>= fun classes => _)
    = (whenWalkable (ofItems (.list body)) _ >>= fun main =>
        (subroutines.filterMap ofValue?).mapM classify >>= fun classes =>
          _).mapError _
  rw [Value.bodyFault?_eq Value.Walk.passes_plain hbody,
    SubroutineClass.mapM_ofData_eq hsubroutines]
  unfold whenWalkable
  cases anyRepeat (ofItems (.list body)) with
  | true => rfl
  | false => cases (subroutines.filterMap ofValue?).mapM classify <;> rfl

end Ordo
