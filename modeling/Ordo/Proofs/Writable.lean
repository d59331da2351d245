import Mathlib.Data.List.Induction
import Ordo.Proofs.Written

namespace Ordo

/-!
# Programs that can be written

* `Expr.isWritable`, `Stmt.isWritable`, `Program.isWritable` — programs without comments,
  declarations, truth values, powers, comparisons other than equality, or array parameters;
* `Program.exists_written` — each of them has a text.

To find a text it is enough to put every operation in parentheses.
-/

open List Expr

/-! ### What can be written -/

/-- The names that can be written. -/
def Name.isWritable : Name → Bool
  | text x => isName x
  | other _ => false

/-- The numbers that can be written: whole ones that are not negative or too long. -/
def Numeral.isWritable : Numeral → Bool
  | whole i => 0 ≤ i && isShort i.toNat
  | real _ => false

/-- Whether an expression is a variable, in any of its shapes. -/
def Expr.isVariable : Expr → Bool
  | var .. | slice .. => true
  | _ => false

mutual

/-- The expressions that can be written: no truth values, no powers, no comparisons but
    equality, and only whole numbers. -/
def Expr.isWritable : Expr → Bool
  | .number n => n.isWritable
  | .var name indices field fieldIndices =>
      name.isWritable && areWritable indices && areWritable fieldIndices &&
        match field with
        | none => fieldIndices.isEmpty
        | some f => indices.isEmpty && isName f
  | .slice name indices field fieldIndices start stop =>
      name.isWritable && indices.isEmpty && field.isNone && fieldIndices.isEmpty &&
        isWritable start && isWritable stop
  | .binary sign left right =>
      Operator.all.any (·.sign == sign) && isWritable left && isWritable right
  | .unary sign operand =>
      Operator.all.any (fun o => o.isSign && o.sign == sign) && isWritable operand
  | .call name arguments => name.isWritable && areWritable arguments
  | .length operand => operand.isVariable && isWritable operand
  | .ceiling operand | .floor operand => isWritable operand
  | .boolean _ | .null | .other _ => false

/-- Whether several expressions can be written. -/
def Expr.areWritable : List Expr → Bool
  | [] => true
  | e :: es => isWritable e && areWritable es

end

mutual

/-- The statements that can be written: all but comments and declarations. -/
def Stmt.isWritable : Stmt → Bool
  | .assign target value => target.isVariable && target.isWritable && value.isWritable
  | .forLoop name start stop body =>
      name.isWritable && start.isWritable && stop.isWritable && Stmt.areWritable body
  | .whileLoop condition body => condition.isWritable && Stmt.areWritable body
  | .repeatLoop body condition =>
      !body.isEmpty && Stmt.areWritable body && condition.isWritable
  | .ifThen condition body => condition.isWritable && Stmt.areWritable body
  | .ifElse condition body otherwise =>
      condition.isWritable && Stmt.areWritable body && Stmt.areWritable otherwise
  | .call name arguments => name.isWritable && Expr.areWritable arguments
  | .ret value => value.isWritable
  | .comment _ | .other _ => false

/-- Whether several statements can be written. -/
def Stmt.areWritable : List Stmt → Bool
  | [] => true
  | s :: ss => Stmt.isWritable s && Stmt.areWritable ss

end

/-- The parameters that can be written: all but arrays. -/
def Parameter.isWritable (p : Parameter) : Bool :=
  p.name.isWritable && match p.kind with
    | .simple => true
    | .object c => isName c
    | .array _ => false

/-- The classes that can be written. -/
def ClassDefinition.isWritable (c : ClassDefinition) : Bool :=
  isName c.name && !c.fields.isEmpty && c.fields.all isName

/-- The subroutines that can be written. -/
def Subroutine.isWritable (s : Subroutine) : Bool :=
  s.name.isWritable && s.parameters.all Parameter.isWritable && s.declarations.isEmpty &&
    Stmt.areWritable s.body

/-- The programs that can be written. -/
def Program.isWritable (p : Program) : Bool :=
  p.classes.all ClassDefinition.isWritable && p.subroutines.all Subroutine.isWritable &&
    p.declarations.isEmpty && Stmt.areWritable p.body

/-! ### Every program that can be written has a text -/

variable {e : Expr} {es : List Expr} {ss : List Stmt}

attribute [local simp] Expr.isVariable

/-- A single operand may stand at any level. -/
theorem Writes.loosen {ls : List Lexeme} (h : Writes (.expr .operand e) ls) :
    ∀ level, Writes (.expr level e) ls
  | .operand => h
  | .signed => .tighter h
  | .product => .tighter (.tighter h)
  | .sum => .tighter (.tighter (.tighter h))
  | .comparison => .tighter (.tighter (.tighter (.tighter h)))
  | .conjunction => .tighter (.tighter (.tighter (.tighter (.tighter h))))
  | .disjunction => .tighter (.tighter (.tighter (.tighter (.tighter (.tighter h)))))

/-- Whether there are lexemes that may stand for a part. -/
def Fragment.IsWritten (part : Fragment) : Prop := ∃ ls, Writes part ls

section Lists

variable {α : Type} {P : α → Prop} {many : List α → Fragment}

/-- Items that may follow each other can all be written. -/
theorem isWritten_all (hnil : (many []).IsWritten)
    (hsnoc : ∀ xs x, (many xs).IsWritten → P x → (many (xs ++ [x])).IsWritten) {xs : List α}
    (h : ∀ x ∈ xs, P x) : (many xs).IsWritten := by
  induction xs using reverseRecOn with
  | nil => exact hnil
  | append_singleton xs x ih =>
    exact hsnoc xs x (ih fun y hy => h y (by simp [hy])) (h x (by simp))

/-- One item or more that may follow each other can all be written. -/
theorem isWritten_some (hone : ∀ x, P x → (many [x]).IsWritten)
    (hsnoc : ∀ xs x, (many xs).IsWritten → P x → (many (xs ++ [x])).IsWritten) {xs : List α}
    (hne : xs ≠ []) (h : ∀ x ∈ xs, P x) : (many xs).IsWritten := by
  induction xs using reverseRecOn with
  | nil => exact absurd rfl hne
  | append_singleton xs x ih =>
    have hx := h x (by simp)
    by_cases hxs : xs = []
    · subst hxs
      exact hone x hx
    · exact hsnoc xs x (ih hxs fun y hy => h y (by simp [hy])) hx

end Lists

theorem isWritten_indices (hne : es ≠ [])
    (h : ∀ e ∈ es, (Fragment.expr .operand e).IsWritten) : (Fragment.indices es).IsWritten :=
  isWritten_some (fun _ ⟨_, he⟩ => ⟨_, .oneIndex (he.loosen _)⟩)
    (fun _ _ ⟨_, hes⟩ ⟨_, he⟩ => ⟨_, .moreIndices hes (he.loosen _)⟩) hne h

theorem isWritten_arguments
    (h : ∀ e ∈ es, (Fragment.expr .operand e).IsWritten) : (Fragment.arguments es).IsWritten := by
  by_cases hne : es = []
  · exact hne ▸ ⟨_, .noArguments⟩
  · obtain ⟨ls, hls⟩ : (Fragment.listed es).IsWritten :=
      isWritten_some (fun _ ⟨_, he⟩ => ⟨_, .oneListed (he.loosen _)⟩)
        (fun _ _ ⟨_, hes⟩ ⟨_, he⟩ => ⟨_, .moreListed hes (he.loosen _)⟩) hne h
    exact ⟨ls, .someArguments hls⟩

theorem isWritten_signature {ps : List Parameter} (h : ∀ p ∈ ps, (Fragment.parameter p).IsWritten) :
    (Fragment.signature ps).IsWritten := by
  by_cases hne : ps = []
  · exact hne ▸ ⟨_, .noSignature⟩
  · obtain ⟨ls, hls⟩ : (Fragment.parameters ps).IsWritten :=
      isWritten_some (fun _ ⟨_, hp⟩ => ⟨_, .oneParameter hp⟩)
        (fun _ _ ⟨_, hps⟩ ⟨_, hp⟩ => ⟨_, .moreParameters hps hp⟩) hne h
    exact ⟨ls, .someSignature hls⟩

theorem isWritten_binary {a b : Expr} (o : Operator) (ha : (Fragment.expr .operand a).IsWritten)
    (hb : (Fragment.expr .operand b).IsWritten) :
    (Fragment.expr .operand (.binary o.sign a b)).IsWritten := by
  obtain ⟨ls, hls⟩ := ha
  obtain ⟨us, hus⟩ := hb
  have hbinary := Writes.binary o (hls.loosen _) (hus.loosen _)
  have hloose : Writes (.expr .disjunction (.binary o.sign a b)) (ls ++ o.lexeme :: us) := by
    cases o with
    | or => exact hbinary
    | and => exact .tighter hbinary
    | equal => exact .tighter (.tighter hbinary)
    | plus | minus => exact .tighter (.tighter (.tighter hbinary))
    | times | divide => exact .tighter (.tighter (.tighter (.tighter hbinary)))
  exact ⟨_, .parentheses hloose⟩

theorem isWritten_unary {o : Operator} (ho : o.isSign = true)
    (h : (Fragment.expr .operand e).IsWritten) :
    (Fragment.expr .operand (.unary o.sign e)).IsWritten := by
  obtain ⟨ls, hls⟩ := h
  have hunary := Writes.unary o ho (hls.loosen _)
  exact ⟨_, .parentheses (.tighter (.tighter (.tighter (.tighter (.tighter hunary)))))⟩

theorem Name.eq_text_of_isWritable {name : Name} (h : name.isWritable = true) :
    ∃ x, name = .text x ∧ isName x = true := by
  cases name with
  | text x => exact ⟨x, rfl, h⟩
  | other v => simp [isWritable] at h

theorem isWritten_variable {x : String} {indices fieldIndices : List Expr} {field : Option String}
    (hx : isName x = true) (hindices : ∀ e ∈ indices, (Fragment.expr .operand e).IsWritten)
    (hfieldIndices : ∀ e ∈ fieldIndices, (Fragment.expr .operand e).IsWritten)
    (hfield : (match field with
      | none => fieldIndices.isEmpty
      | some f => indices.isEmpty && isName f) = true) :
    (Fragment.target (.var (.text x) indices field fieldIndices)).IsWritten := by
  cases field with
  | none =>
    obtain rfl := isEmpty_iff.mp hfield
    by_cases hne : indices = []
    · subst hne
      exact ⟨_, .plain hx⟩
    · obtain ⟨ls, hls⟩ := isWritten_indices hne hindices
      exact ⟨_, .indexed hx hls⟩
  | some f =>
    simp only [Bool.and_eq_true, List.isEmpty_iff] at hfield
    obtain ⟨rfl, hf⟩ := hfield
    by_cases hne : fieldIndices = []
    · subst hne
      exact ⟨_, .field hx hf⟩
    · obtain ⟨ls, hls⟩ := isWritten_indices hne hfieldIndices
      exact ⟨_, .indexedField hx hf hls⟩

mutual

/-- Expressions that can be written have lexemes, and variables have them as targets. -/
theorem Expr.isWritten_of_isWritable : ∀ e : Expr, e.isWritable = true →
    (Fragment.expr .operand e).IsWritten ∧ (e.isVariable = true → (Fragment.target e).IsWritten)
  | .number (.whole i), h => by
    simp only [isWritable, Numeral.isWritable, Bool.and_eq_true, decide_eq_true_eq] at h
    obtain ⟨n, rfl⟩ := Int.eq_ofNat_of_zero_le h.1
    exact ⟨⟨_, .number h.2⟩, by simp⟩
  | .var name indices field fieldIndices, h => by
    simp only [isWritable, Bool.and_eq_true] at h
    obtain ⟨⟨⟨hname, hindices⟩, hfieldIndices⟩, hfield⟩ := h
    obtain ⟨x, rfl, hx⟩ := Name.eq_text_of_isWritable hname
    have htarget := isWritten_variable hx (isWritten_of_areWritable indices hindices)
      (isWritten_of_areWritable fieldIndices hfieldIndices) hfield
    exact ⟨htarget.imp fun _ => .designator, fun _ => htarget⟩
  | .slice name indices field fieldIndices start stop, h => by
    simp only [isWritable, Bool.and_eq_true, List.isEmpty_iff, Option.isNone_iff_eq_none] at h
    obtain ⟨⟨⟨⟨⟨hname, rfl⟩, rfl⟩, rfl⟩, hstart⟩, hstop⟩ := h
    obtain ⟨x, rfl, hx⟩ := Name.eq_text_of_isWritable hname
    obtain ⟨ls, hls⟩ := (isWritten_of_isWritable start hstart).1
    obtain ⟨us, hus⟩ := (isWritten_of_isWritable stop hstop).1
    have htarget : (Fragment.target (.slice (.text x) [] none [] start stop)).IsWritten :=
      ⟨_, .range hx (hls.loosen _) (hus.loosen _)⟩
    exact ⟨htarget.imp fun _ => .designator, fun _ => htarget⟩
  | .binary sign left right, h => by
    simp only [isWritable, Bool.and_eq_true, any_eq_true, beq_iff_eq] at h
    obtain ⟨⟨⟨o, -, rfl⟩, hleft⟩, hright⟩ := h
    exact ⟨isWritten_binary o (isWritten_of_isWritable left hleft).1
      (isWritten_of_isWritable right hright).1, by simp⟩
  | .unary sign operand, h => by
    simp only [isWritable, Bool.and_eq_true, any_eq_true, beq_iff_eq] at h
    obtain ⟨⟨o, -, ho, rfl⟩, hoperand⟩ := h
    exact ⟨isWritten_unary ho (isWritten_of_isWritable operand hoperand).1,
      by simp⟩
  | .call name arguments, h => by
    simp only [isWritable, Bool.and_eq_true] at h
    obtain ⟨x, rfl, hx⟩ := Name.eq_text_of_isWritable h.1
    obtain ⟨ls, hls⟩ := isWritten_arguments (isWritten_of_areWritable arguments h.2)
    exact ⟨⟨_, .application hx hls⟩, by simp⟩
  | .length operand, h => by
    simp only [isWritable, Bool.and_eq_true] at h
    obtain ⟨ls, hls⟩ := (isWritten_of_isWritable operand h.2).2 h.1
    exact ⟨⟨_, .length hls⟩, by simp⟩
  | .ceiling operand, h => by
    simp only [isWritable] at h
    obtain ⟨ls, hls⟩ := (isWritten_of_isWritable operand h).1
    exact ⟨⟨_, .ceiling (hls.loosen _)⟩, by simp⟩
  | .floor operand, h => by
    simp only [isWritable] at h
    obtain ⟨ls, hls⟩ := (isWritten_of_isWritable operand h).1
    exact ⟨⟨_, .floor (hls.loosen _)⟩, by simp⟩
  | .number (.real _), h | .boolean _, h | .null, h | .other _, h => by
    simp [isWritable, Numeral.isWritable] at h

theorem Expr.isWritten_of_areWritable : ∀ es : List Expr, Expr.areWritable es = true →
    ∀ e ∈ es, (Fragment.expr .operand e).IsWritten
  | [], _ => by simp
  | e :: es, h => by
    simp only [areWritable, Bool.and_eq_true] at h
    exact forall_mem_cons.mpr
      ⟨(isWritten_of_isWritable e h.1).1, isWritten_of_areWritable es h.2⟩

end

theorem Expr.exists_writes (h : e.isWritable = true) :
    (Fragment.expr .disjunction e).IsWritten := by
  obtain ⟨ls, hls⟩ := (isWritten_of_isWritable e h).1
  exact ⟨ls, hls.loosen _⟩

theorem isWritten_stmts (h : ∀ s ∈ ss, (Fragment.stmt s).IsWritten) :
    (Fragment.stmts ss).IsWritten :=
  isWritten_all ⟨_, .noStmts⟩ (fun _ _ ⟨_, hss⟩ ⟨_, hs⟩ => ⟨_, .moreStmts hss hs⟩) h

theorem isWritten_block (h : ∀ s ∈ ss, (Fragment.stmt s).IsWritten) :
    (Fragment.block ss).IsWritten := by
  obtain ⟨ls, hls⟩ := isWritten_stmts h
  exact ⟨_, .block hls⟩

mutual

theorem Stmt.isWritten_of_isWritable : ∀ s : Stmt, s.isWritable = true →
    (Fragment.stmt s).IsWritten
  | .assign target value, h => by
    simp only [Stmt.isWritable, Bool.and_eq_true] at h
    obtain ⟨ls, hls⟩ := (Expr.isWritten_of_isWritable target h.1.2).2 h.1.1
    obtain ⟨us, hus⟩ := Expr.exists_writes h.2
    exact ⟨_, .assign ⟨.assign, ":="⟩ rfl hls hus false⟩
  | .forLoop name start stop body, h => by
    simp only [Stmt.isWritable, Bool.and_eq_true] at h
    obtain ⟨⟨⟨hname, hstart⟩, hstop⟩, hbody⟩ := h
    obtain ⟨x, rfl, hx⟩ := Name.eq_text_of_isWritable hname
    obtain ⟨ls, hls⟩ := Expr.exists_writes hstart
    obtain ⟨us, hus⟩ := Expr.exists_writes hstop
    obtain ⟨bs, hbs⟩ := isWritten_block (Stmt.isWritten_of_areWritable body hbody)
    exact ⟨_, .forLoop ⟨.assign, ":="⟩ rfl hx hls hus hbs⟩
  | .whileLoop condition body, h => by
    simp only [Stmt.isWritable, Bool.and_eq_true] at h
    obtain ⟨ls, hls⟩ := Expr.exists_writes h.1
    obtain ⟨bs, hbs⟩ := isWritten_block (Stmt.isWritten_of_areWritable body h.2)
    exact ⟨_, .whileLoop hls hbs⟩
  | .repeatLoop body condition, h => by
    simp only [Stmt.isWritable, Bool.and_eq_true, Bool.not_eq_true', isEmpty_eq_false_iff] at h
    obtain ⟨bs, hbs⟩ := isWritten_stmts (Stmt.isWritten_of_areWritable body h.1.2)
    obtain ⟨ls, hls⟩ := Expr.exists_writes h.2
    exact ⟨_, .repeatLoop h.1.1 hbs hls⟩
  | .ifThen condition body, h => by
    simp only [Stmt.isWritable, Bool.and_eq_true] at h
    obtain ⟨ls, hls⟩ := Expr.exists_writes h.1
    obtain ⟨bs, hbs⟩ := isWritten_block (Stmt.isWritten_of_areWritable body h.2)
    exact ⟨_, .ifThen hls hbs⟩
  | .ifElse condition body otherwise, h => by
    simp only [Stmt.isWritable, Bool.and_eq_true] at h
    obtain ⟨ls, hls⟩ := Expr.exists_writes h.1.1
    obtain ⟨bs, hbs⟩ := isWritten_block (Stmt.isWritten_of_areWritable body h.1.2)
    obtain ⟨ds, hds⟩ := isWritten_block (Stmt.isWritten_of_areWritable otherwise h.2)
    exact ⟨_, .ifElse hls hbs hds⟩
  | .call name arguments, h => by
    simp only [Stmt.isWritable, Bool.and_eq_true] at h
    obtain ⟨x, rfl, hx⟩ := Name.eq_text_of_isWritable h.1
    obtain ⟨ls, hls⟩ := isWritten_arguments (Expr.isWritten_of_areWritable arguments h.2)
    exact ⟨_, .call hx hls false⟩
  | .ret value, h => by
    simp only [Stmt.isWritable] at h
    obtain ⟨ls, hls⟩ := Expr.exists_writes h
    exact ⟨_, .ret hls false⟩
  | .comment _, h | .other _, h => by simp [Stmt.isWritable] at h

theorem Stmt.isWritten_of_areWritable : ∀ ss : List Stmt, Stmt.areWritable ss = true →
    ∀ s ∈ ss, (Fragment.stmt s).IsWritten
  | [], _ => by simp
  | s :: ss, h => by
    simp only [Stmt.areWritable, Bool.and_eq_true] at h
    exact forall_mem_cons.mpr
      ⟨Stmt.isWritten_of_isWritable s h.1, Stmt.isWritten_of_areWritable ss h.2⟩

end

theorem Parameter.isWritten_of_isWritable {p : Parameter} (h : p.isWritable = true) :
    (Fragment.parameter p).IsWritten := by
  obtain ⟨name, kind⟩ := p
  simp only [Parameter.isWritable, Bool.and_eq_true] at h
  obtain ⟨x, rfl, hx⟩ := Name.eq_text_of_isWritable h.1
  cases kind with
  | simple => exact ⟨_, .simple hx⟩
  | object c => exact ⟨_, .object h.2 hx⟩
  | array d => simp at h

theorem ClassDefinition.isWritten_of_isWritable {c : ClassDefinition} (h : c.isWritable = true) :
    (Fragment.classDef c).IsWritten := by
  simp only [ClassDefinition.isWritable, Bool.and_eq_true, Bool.not_eq_true',
    isEmpty_eq_false_iff, all_eq_true] at h
  obtain ⟨ls, hls⟩ : (Fragment.names c.fields).IsWritten :=
    isWritten_some (fun _ hx => ⟨_, .oneName hx⟩)
      (fun _ _ ⟨_, hxs⟩ hx => ⟨_, .moreNames hxs hx⟩) h.1.2 h.2
  exact ⟨_, .classDef h.1.1 hls⟩

theorem Subroutine.isWritten_of_isWritable {s : Subroutine} (h : s.isWritable = true) :
    (Fragment.subroutine s).IsWritten := by
  obtain ⟨name, parameters, declarations, body⟩ := s
  simp only [Subroutine.isWritable, Bool.and_eq_true, List.all_eq_true, List.isEmpty_iff] at h
  obtain ⟨⟨⟨hname, hparameters⟩, rfl⟩, hbody⟩ := h
  obtain ⟨x, rfl, hx⟩ := Name.eq_text_of_isWritable hname
  obtain ⟨ls, hls⟩ := isWritten_signature fun p hp =>
    Parameter.isWritten_of_isWritable (hparameters p hp)
  obtain ⟨bs, hbs⟩ := isWritten_stmts (Stmt.isWritten_of_areWritable body hbody)
  exact ⟨_, .subroutine hx hls hbs⟩

/-- Every program that can be written has a text. -/
theorem Program.exists_written {p : Program} (h : p.isWritable = true) :
    ∃ text, p.Written text := by
  obtain ⟨classes, subroutines, declarations, body⟩ := p
  simp only [Program.isWritable, Bool.and_eq_true, List.all_eq_true, List.isEmpty_iff] at h
  obtain ⟨⟨⟨hclasses, hsubroutines⟩, rfl⟩, hbody⟩ := h
  obtain ⟨ls, hls⟩ : (Fragment.classes classes).IsWritten :=
    isWritten_all ⟨_, .noClasses⟩ (fun _ _ ⟨_, hcs⟩ ⟨_, hc⟩ => ⟨_, .moreClasses hcs hc⟩)
      fun c hc => ClassDefinition.isWritten_of_isWritable (hclasses c hc)
  obtain ⟨us, hus⟩ : (Fragment.subroutines subroutines).IsWritten :=
    isWritten_all ⟨_, .noSubroutines⟩ (fun _ _ ⟨_, hss⟩ ⟨_, hs⟩ => ⟨_, .moreSubroutines hss hs⟩)
      fun s hs => Subroutine.isWritten_of_isWritable (hsubroutines s hs)
  obtain ⟨bs, hbs⟩ := isWritten_stmts (Stmt.isWritten_of_areWritable body hbody)
  exact ⟨_, _, .program hls hus hbs, spreadOut_spaced _⟩

end Ordo
