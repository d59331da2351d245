import Ordo.Proofs.Charts
import Ordo.Proofs.SyntaxTrees

namespace Ordo

/-!
# Charts of syntax trees

Drawing asks for more than the analyses do, since it enters repeat loops too.  A syntax tree whose
repeat loops are whole can be drawn, and its chart is that of its statements.

* `Value.IsExprTree.fullFault?_eq_none` — expressions can be shown in diagrams;
* `Value.IsDrawable`, `Value.IsDrawableSubroutine` — the syntax trees that can be drawn;
* `Value.IsDrawable.marked_eq` — nothing in them stops the drawing;
* `Value.IsDrawableSubroutine.exists_ofValue_eq` — the chart of a subroutine.
-/

namespace Value

/-! ### Expressions -/

variable {v : Value} {vs : List Value}

theorem IsText.suffixFault?_eq_none (h : v.IsText) : v.suffixFault? = Option.none := by
  cases v <;> simp_all [IsText, text?, suffixFault?]

theorem IsIndexList.isPlain (h : v.IsIndexList) : (v.isTrue && !v.hasItems) = false := by
  rcases h with rfl | ⟨vs, rfl⟩
  · rfl
  · simp [hasItems]

/-- A name that is a text stays one if something is written after it. -/
theorem IsText.extend (h : v.IsText) (suffix : String) :
    ((Name.ofValue v).extend suffix).toValue.IsText := by
  unfold Name.extend
  split
  · rwa [Name.toValue_ofValue]
  · cases v <;> simp_all [IsText, text?, Name.ofValue, Name.toValue]

/-- What diagrams show an expression as is a text. -/
theorem IsExprTree.isText_fullForm (h : v.IsExprTree) :
    (Expr.ofValue v).fullForm.toValue.IsText := by
  cases h with
  | number n => cases n <;> rfl
  | @var name indices field fieldIndices start stop ranged hname _ hindices =>
    rw [Expr.ofValue, if_neg (by rw [hindices.isPlain]; exact Bool.false_ne_true)]
    cases ranged <;> exact hname.extend _
  | leftover h => cases v <;> simp_all [IsText, text?] <;> rfl
  | _ => rfl

theorem fullFaultIn?_eq_none (h : ∀ v ∈ vs, v.fullFault? = Option.none) :
    fullFaultIn? vs = Option.none := by
  induction vs with
  | nil => rfl
  | cons v vs ih =>
    obtain ⟨hv, hvs⟩ := List.forall_mem_cons.mp h
    rw [fullFaultIn?, hv, ih hvs]
    rfl

theorem fullItemsFault?_eq_none (h : ∀ v ∈ vs, v.IsExprTree)
    (hfault : ∀ v ∈ vs, v.fullFault? = Option.none) : (list vs).fullItemsFault? = Option.none := by
  have hjoin := joinFault?_eq_none (fun v hv => (h v hv).isText_fullForm) 0
  simp [fullItemsFault?, fullFaultIn?_eq_none hfault, hjoin]

theorem IsExprTree.formFault?_eq_none (h : v.IsExprTree) :
    v.formFault? Expr.fullForm = Option.none :=
  h.isText_fullForm.fault?_eq_none

/-- **An expression can be shown in diagrams.** -/
theorem IsExprTree.fullFault?_eq_none (h : v.IsExprTree) : v.fullFault? = Option.none := by
  induction h with
  | number n => cases n <;> rfl
  | boolean b => rfl
  | null => rfl
  | @var name indices field fieldIndices start stop ranged hname hfield hindices hitems _ _ hstart
      hstop ihitems _ ihstart ihstop =>
    have hindexed : (if indices.isTrue then indices.fullItemsFault?.or name.suffixFault?
        else Option.none) = Option.none := by
      rw [hname.suffixFault?_eq_none]
      rcases hindices with rfl | ⟨vs, rfl⟩
      · rfl
      · have hfault : (list vs).fullItemsFault? = Option.none :=
          fullItemsFault?_eq_none hitems ihitems
        rw [hfault]
        exact ite_self _
    have hchosen : (if field.isTrue then field.fault?.or name.suffixFault?
        else Option.none) = Option.none := by
      rw [hname.suffixFault?_eq_none]
      rcases hfield with rfl | hfield
      · rfl
      · rw [hfield.fault?_eq_none]
        exact ite_self _
    rw [fullFault?, hindexed, hchosen]
    cases ranged with
    | false => rfl
    | true =>
      simp [isTrue, ihstart rfl, ihstop rfl, (hstart rfl).formFault?_eq_none,
        (hstop rfl).formFault?_eq_none, hname.suffixFault?_eq_none]
  | binary hoperator hleft hright ihleft ihright =>
    simp [fullFault?, ihleft, ihright, hleft.formFault?_eq_none, hright.formFault?_eq_none,
      hoperator.fault?_eq_none]
  | unary hoperator hoperand ih =>
    simp [fullFault?, ih, hoperand.formFault?_eq_none, hoperator.fault?_eq_none]
  | call hname harguments ih =>
    simp [fullFault?, fullItemsFault?_eq_none harguments ih, hname.fault?_eq_none]
  | length h ih | ceiling h ih | floor h ih => simp [fullFault?, ih, h.formFault?_eq_none]
  | @leftover v h => cases v <;> simp_all [IsText, text?, fullFault?, fault?]

/-- An expression can be a word of a label. -/
theorem IsExprTree.wordFault?_eq_none (h : v.IsExprTree) (fault : String → AccessError) :
    Flowchart.wordFault? fault v = Option.none := by
  have htext : (Expr.ofValue v).fullForm.toValue.text?.isSome = true := h.isText_fullForm
  simp [Flowchart.wordFault?, h.fullFault?_eq_none, htext]

/-! ### Statements -/

/-- Statements all of whose parts are there.  Inside a repeat loop the parse tree of a declaration
    may stand for a statement. -/
inductive IsDrawable : Value → Prop
  | assignment {target value : Value} (htarget : target.IsExprTree) (hvalue : value.IsExprTree) :
      IsDrawable (node .assignment [target, value])
  | forLoop {name start stop : Value} {body : List Value} (hname : name.IsText)
      (hstart : start.IsExprTree) (hstop : stop.IsExprTree) (hbody : ∀ v ∈ body, IsDrawable v) :
      IsDrawable (node .forLoop [name, start, stop, blockValue body])
  | whileLoop {condition : Value} {body : List Value} (hcondition : condition.IsExprTree)
      (hbody : ∀ v ∈ body, IsDrawable v) :
      IsDrawable (node .whileLoop [condition, blockValue body])
  | repeatLoop {condition : Value} {body : List Value} (hcondition : condition.IsExprTree)
      (hbody : ∀ v ∈ body, IsDrawable v) :
      IsDrawable (node .repeatLoop [list body, condition])
  | ifThen {condition : Value} {body : List Value} (hcondition : condition.IsExprTree)
      (hbody : ∀ v ∈ body, IsDrawable v) :
      IsDrawable (node .ifStatement [condition, blockValue body, none])
  | ifElse {condition : Value} {body otherwise : List Value} (hcondition : condition.IsExprTree)
      (hbody : ∀ v ∈ body, IsDrawable v) (hotherwise : ∀ v ∈ otherwise, IsDrawable v) :
      IsDrawable (node .ifStatement [condition, blockValue body, blockValue otherwise])
  | call {name : Value} {arguments : List Value} (hname : name.IsText)
      (harguments : ∀ v ∈ arguments, v.IsExprTree) :
      IsDrawable (node .callStatement [name, list arguments])
  | ret {value : Value} (hvalue : value.IsExprTree) : IsDrawable (node .returnStatement [value])
  | comment (text : Value) : IsDrawable (node .comment [text])
  | declaration {rule : Value} {children : List Value}
      (h : (tree rule children).fault? = Option.none) : IsDrawable (tree rule children)

/-- Parameters with names. -/
def IsNamedParameter (v : Value) : Prop :=
  ∃ name type className dimensions,
    v = node .parameter [name, type, className, dimensions] ∧ name.IsText

/-- Subroutines that can be drawn. -/
inductive IsDrawableSubroutine : Value → Prop
  | mk {name declarations : Value} {parameters body : List Value} (hname : name.IsText)
      (hparameters : ∀ v ∈ parameters, v.IsNamedParameter) (hbody : ∀ v ∈ body, v.IsDrawable) :
      IsDrawableSubroutine (node .subroutine [name, list parameters, declarations, list body])

open Flowchart (marked markedAll markedBlock markedItems terminalFault? lastFault? endFault?)

attribute [local simp] Stmt.ofValue marked Flowchart.labelled fullFault?

theorem lastFault?_eq_none (h : ∀ v ∈ vs, terminalFault? v = Option.none) :
    lastFault? vs = Option.none := by
  induction vs with
  | nil => rfl
  | cons v vs ih =>
    obtain ⟨hv, hvs⟩ := List.forall_mem_cons.mp h
    cases vs with
    | nil => exact hv
    | cons u us => exact ih hvs

/-- It can be told whether a statement is terminal. -/
theorem IsDrawable.terminalFault?_eq_none (h : v.IsDrawable) : terminalFault? v = Option.none := by
  induction h with
  | ifThen _ _ ih =>
    have hbody := lastFault?_eq_none ih
    rw [terminalFault?, blockValue, endFault?, hbody]
    rfl
  | ifElse _ _ _ ih ihotherwise =>
    have hbody := lastFault?_eq_none ih
    have hother := lastFault?_eq_none ihotherwise
    rw [terminalFault?, blockValue, endFault?, hbody, blockValue, endFault?, hother]
    rfl
  | _ => rfl

/-- It can be told whether a block ends in a terminal statement. -/
theorem endFault?_eq_none (h : ∀ v ∈ vs, v.IsDrawable) :
    endFault? (blockValue vs) = Option.none := by
  rw [blockValue, endFault?]
  exact lastFault?_eq_none fun v hv => (h v hv).terminalFault?_eq_none

theorem markedAll_eq (h : ∀ v ∈ vs, marked v = ⟨[Stmt.ofValue v], Option.none⟩) :
    markedAll vs = ⟨Stmt.ofValues vs, Option.none⟩ := by
  induction vs with
  | nil => rfl
  | cons v vs ih =>
    obtain ⟨hv, hvs⟩ := List.forall_mem_cons.mp h
    rw [markedAll, hv, ih hvs]
    rfl

theorem markedBlock_eq (h : ∀ v ∈ vs, marked v = ⟨[Stmt.ofValue v], Option.none⟩) :
    markedBlock (blockValue vs) = ⟨Stmt.ofBlock (blockValue vs), Option.none⟩ := by
  rw [blockValue, markedBlock, markedItems, markedAll_eq h]
  cases vs <;> rfl

/-- **Nothing in a statement stops the drawing.** -/
theorem IsDrawable.marked_eq (h : v.IsDrawable) : marked v = ⟨[Stmt.ofValue v], Option.none⟩ := by
  induction h with
  | assignment htarget hvalue =>
    simp [Flowchart.assignmentFault?, htarget.fullFault?_eq_none, hvalue.fullFault?_eq_none,
      htarget.formFault?_eq_none, hvalue.formFault?_eq_none]
  | forLoop hname hstart hstop _ ih =>
    simp [Flowchart.rangeFault?, hname.fault?_eq_none, hstart.fullFault?_eq_none,
      hstop.fullFault?_eq_none, hstart.formFault?_eq_none, hstop.formFault?_eq_none,
      markedBlock_eq ih]
  | whileLoop hcondition _ ih =>
    simp [Flowchart.labelFault?, hcondition.wordFault?_eq_none, markedBlock_eq ih]
  | @repeatLoop condition body hcondition _ ih =>
    rw [marked, Flowchart.questionFault?, hcondition.wordFault?_eq_none, markedItems,
      markedAll_eq ih]
    cases body <;> rfl
  | ifThen hcondition hbody ih =>
    simp [Flowchart.questionFault?, hcondition.wordFault?_eq_none, markedBlock_eq ih,
      endFault?_eq_none hbody, Flowchart.secondBranch, isTrue]
  | ifElse hcondition hbody hotherwise ih ihotherwise =>
    have htrue : ∀ vs, (blockValue vs).isTrue = true := fun _ => rfl
    simp [Flowchart.questionFault?, hcondition.wordFault?_eq_none, markedBlock_eq ih,
      markedBlock_eq ihotherwise, endFault?_eq_none hbody, endFault?_eq_none hotherwise,
      Flowchart.secondBranch, htrue]
  | call hname harguments =>
    have hitems := fullItemsFault?_eq_none harguments fun v hv =>
      (harguments v hv).fullFault?_eq_none
    simp [Flowchart.callFault?, hitems, hname.fault?_eq_none]
  | ret hvalue =>
    simp [Flowchart.textFault?, hvalue.fullFault?_eq_none, hvalue.formFault?_eq_none]
  | comment text => rfl
  | declaration h =>
    rw [marked, h]
    · rfl
    all_goals exact fun _ => by simp

end Value

/-! ### Charts -/

namespace Flowchart

variable {body parameters : List Value}

/-- A body that can be drawn is drawn. -/
theorem ofData_eq (title : String) (h : ∀ v ∈ body, v.IsDrawable) :
    ofData title (.ok (.list body)) = .ok (ofBody title (Stmt.ofItems (.list body))) := by
  have hitems : (if (Value.list body).isTrue then markedItems (.list body) else ⟨[], none⟩)
      = ⟨Stmt.ofValues body, none⟩ := by
    rw [markedItems, Value.markedAll_eq fun v hv => (h v hv).marked_eq]
    cases body <;> rfl
  have hdrawn : (drawItems 0 (.list body)).result
      = .ok (drawSequence 0 (Stmt.ofValues body)).result := by
    rw [drawItems, hitems]
    rfl
  refine bind_eq_ok_iff.mpr ⟨.list body, mapError_eq_ok_iff.mpr rfl, ?_⟩
  simp only [hdrawn]
  rfl

/-- The texts of names. -/
theorem exists_textsFrom {vs : List Value} (h : ∀ v ∈ vs, v.IsText) (index : Nat) :
    ∃ texts, Value.textsFrom index vs = .ok texts := by
  induction vs generalizing index with
  | nil => exact ⟨[], rfl⟩
  | cons v vs ih =>
    obtain ⟨hv, hvs⟩ := List.forall_mem_cons.mp h
    obtain ⟨texts, htexts⟩ := ih hvs (index + 1)
    cases v with
    | str s | token k s => exact ⟨s :: texts, by rw [Value.textsFrom, htexts]; rfl⟩
    | _ => cases hv

/-- A subroutine whose parameters have names has a title. -/
theorem exists_titleOf {name : Value} (hname : name.IsText)
    (h : ∀ v ∈ parameters, v.IsNamedParameter) :
    ∃ title, titleOf name (.list parameters) = .ok title := by
  obtain ⟨names, hnames, htext⟩ : ∃ names, parameters.mapM (·.part "name") = .ok names ∧
      ∀ v ∈ names, v.IsText := by
    have hparts : ∀ v ∈ parameters, ∃ n, v.part "name" = .ok n := by
      intro v hv
      obtain ⟨n, _, _, _, rfl, -⟩ := h v hv
      exact ⟨n, rfl⟩
    obtain ⟨names, hnames⟩ := exists_mapM_iff.mpr hparts
    refine ⟨names, hnames, fun n hn => ?_⟩
    obtain ⟨v, hv, hpart⟩ := exists_of_mem_mapM hnames hn
    obtain ⟨n', _, _, _, rfl, htext⟩ := h v hv
    rwa [← Except.ok.inj hpart]
  show ∃ title, (parameters.mapM (·.part "name") >>= fun names => _) = .ok title
  rw [hnames]
  cases names with
  | nil =>
    obtain ⟨s, hs⟩ := Option.isSome_iff_exists.mp hname
    refine ⟨s, ?_⟩
    show name.textFor "replace" = .ok s
    rw [Value.textFor, hs]
  | cons n ns =>
    obtain ⟨texts, htexts⟩ := exists_textsFrom htext 0
    refine ⟨name.text ++ "(" ++ Value.joined ", " texts ++ ")", ?_⟩
    show (Value.textsFrom 0 (n :: ns) >>= fun names => _) = _
    rw [htexts]
    show (name.shown >>= fun shown => _) = _
    rw [Value.shown, hname.fault?_eq_none]
    rfl

/-- A subroutine with a title is drawn under it. -/
theorem ofValue_eq {name declarations : Value} {title : String}
    (htitle : titleOf name (.list parameters) = .ok title) (h : ∀ v ∈ body, v.IsDrawable) :
    ofValue (.node .subroutine [name, .list parameters, declarations, .list body])
      = .ok (ofBody title (Stmt.ofValues body)) := by
  show (notBegun (titleOf name (.list parameters)) >>= fun title => _) = _
  rw [htitle]
  exact ofData_eq title h

end Flowchart

/-- **The chart of a subroutine** is that of its statements, under its title. -/
theorem Value.IsDrawableSubroutine.exists_ofValue_eq {v : Value} (h : v.IsDrawableSubroutine) :
    ∃ title s, Subroutine.ofValue? v = some s ∧
      Flowchart.ofValue v = .ok (Flowchart.ofBody title s.body) := by
  obtain @⟨name, declarations, parameters, body, hname, hparameters, hbody⟩ := h
  obtain ⟨title, htitle⟩ := Flowchart.exists_titleOf hname hparameters
  exact ⟨title, _, rfl, Flowchart.ofValue_eq htitle hbody⟩

end Ordo
