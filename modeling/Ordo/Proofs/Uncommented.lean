import Ordo.Proofs.DrawableTrees

namespace Ordo

/-!
# Deleting comments

Comments can be deleted from a body, and from all bodies inside it.  What stays is what was there,
in the same order.

* `Stmt.uncommented`, `Stmt.uncommentedAll` — statements without comments;
* `Value.uncommented`, `Value.uncommentedAll`, `Value.uncommentedSubroutine` — the same in data;
* `Stmt.endsTerminal_uncommentedAll` — what always ends in a return still does;
* `Stmt.HidesReturn` — a branch with a comment after what always ends in a return;
* `Stmt.ShowsIn`, `Stmt.showsIn_iff` — bodies of which deleting comments changes the drawing;
* `Value.IsDrawableSubroutine.exists_uncommented` — a subroutine without its comments is drawn
  under the same title.
-/

open List

namespace Stmt

/-! ### Statements -/

mutual

/-- A statement without the comments inside it. -/
def uncommented : Stmt → Stmt
  | forLoop name start stop body => forLoop name start stop (uncommentedAll body)
  | whileLoop condition body => whileLoop condition (uncommentedAll body)
  | repeatLoop body condition => repeatLoop (uncommentedAll body) condition
  | ifThen condition body => ifThen condition (uncommentedAll body)
  | ifElse condition body otherwise =>
      ifElse condition (uncommentedAll body) (uncommentedAll otherwise)
  | s => s

/-- Statements without the comments among and inside them. -/
def uncommentedAll : List Stmt → List Stmt
  | [] => []
  | s :: body => if s.isComment then uncommentedAll body else uncommented s :: uncommentedAll body

end

variable {s : Stmt} {branch : List Stmt}

attribute [local simp] bodies isTerminal endsTerminal

theorem uncommentedAll_cons_of_comment (h : s.isComment = true) (body : List Stmt) :
    uncommentedAll (s :: body) = uncommentedAll body := by
  rw [uncommentedAll, if_pos h]

theorem uncommentedAll_cons_of_not_comment (h : s.isComment = false) (body : List Stmt) :
    uncommentedAll (s :: body) = s.uncommented :: uncommentedAll body := by
  rw [uncommentedAll, h, if_neg Bool.false_ne_true]

theorem uncommentedAll_append (body more : List Stmt) :
    uncommentedAll (body ++ more) = uncommentedAll body ++ uncommentedAll more := by
  induction body with
  | nil => rfl
  | cons s body ih =>
    rw [cons_append, uncommentedAll, uncommentedAll, ih]
    split <;> rfl

variable {body : List Stmt}

/-- Nothing stays of comments only. -/
theorem uncommentedAll_eq_nil_iff : uncommentedAll body = [] ↔ body.all isComment = true := by
  induction body with
  | nil => simp [uncommentedAll]
  | cons s body ih =>
    rw [uncommentedAll, all_cons]
    cases s.isComment <;> simp [ih]

theorem exists_uncommentedAll_eq_cons (h : body.all isComment = false) :
    ∃ s rest, uncommentedAll body = s :: rest := by
  rw [← ne_nil_iff_exists_cons, ne_eq, uncommentedAll_eq_nil_iff, h]
  exact Bool.false_ne_true

/-! ### Terminal statements -/

theorem endsTerminal_cons_of_ne_nil (s : Stmt) (h : body ≠ []) :
    endsTerminal (s :: body) = endsTerminal body := by
  cases body with
  | nil => exact absurd rfl h
  | cons t body => rw [endsTerminal]

theorem endsTerminal_concat (body : List Stmt) (s : Stmt) :
    endsTerminal (body ++ [s]) = s.isTerminal := by
  induction body with
  | nil => rw [nil_append, endsTerminal]
  | cons t body ih => rw [cons_append, endsTerminal_cons_of_ne_nil t (by simp), ih]

theorem isTerminal_of_isComment (h : s.isComment = true) : s.isTerminal = false := by
  cases s <;> simp_all [isComment, isTerminal]

/-- What ends in a return is not made of comments only. -/
theorem all_isComment_of_endsTerminal (h : endsTerminal body = true) :
    body.all isComment = false := by
  by_contra hall
  rw [Bool.not_eq_false, all_eq_true] at hall
  rcases eq_nil_or_concat' body with rfl | ⟨front, s, rfl⟩
  · simp at h
  · rw [endsTerminal_concat, isTerminal_of_isComment (hall s (by simp))] at h
    exact absurd h Bool.false_ne_true

mutual

/-- A statement that always ends in a return still does without its comments. -/
theorem isTerminal_uncommented {s : Stmt} (h : s.isTerminal = true) :
    s.uncommented.isTerminal = true := by
  cases s with
  | ret value => rfl
  | ifElse condition body otherwise =>
    rw [isTerminal, Bool.and_eq_true] at h
    rw [uncommented, isTerminal, endsTerminal_uncommentedAll h.1, endsTerminal_uncommentedAll h.2,
      Bool.and_self]
  | _ => simp at h

theorem endsTerminal_uncommentedAll {body : List Stmt} (h : endsTerminal body = true) :
    endsTerminal (uncommentedAll body) = true := by
  cases body with
  | nil => simp at h
  | cons s body =>
    by_cases hbody : body = []
    · subst hbody
      rw [endsTerminal] at h
      have hs : s.isComment = false := by
        cases hcomment : s.isComment
        · rfl
        · rw [isTerminal_of_isComment hcomment] at h
          exact absurd h Bool.false_ne_true
      rw [uncommentedAll_cons_of_not_comment hs, uncommentedAll, endsTerminal]
      exact isTerminal_uncommented h
    · rw [endsTerminal_cons_of_ne_nil s hbody] at h
      have hrest : uncommentedAll body ≠ [] := by
        rw [ne_eq, uncommentedAll_eq_nil_iff, all_isComment_of_endsTerminal h]
        exact Bool.false_ne_true
      rw [uncommentedAll]
      split
      · exact endsTerminal_uncommentedAll h
      · rw [endsTerminal_cons_of_ne_nil _ hrest]
        exact endsTerminal_uncommentedAll h

end

/-! ### Where comments show -/

/-- The branches of conditionals. -/
def branches : Stmt → List (List Stmt)
  | ifThen _ body => [body]
  | ifElse _ body otherwise => [body, otherwise]
  | _ => []

theorem mem_bodies_of_mem_branches (h : branch ∈ s.branches) : branch ∈ s.bodies := by
  cases s <;> simp_all [branches, bodies]

/-- A comment stands after what always ends in a return. -/
def HidesReturn (branch : List Stmt) : Prop :=
  ∃ front text, branch = front ++ [comment text] ∧ endsTerminal (uncommentedAll front) = true

/-- Only without its comments a branch always ends in a return. -/
def losesReturn (branch : List Stmt) : Bool :=
  !endsTerminal branch && endsTerminal (uncommentedAll branch)

theorem losesReturn_eq_false_iff : losesReturn branch = false ↔
      endsTerminal (uncommentedAll branch) = endsTerminal branch := by
  have hkeeps : endsTerminal branch = true → endsTerminal (uncommentedAll branch) = true :=
    endsTerminal_uncommentedAll
  cases hbranch : endsTerminal branch <;> simp_all [losesReturn]

/-- The drawing of a statement itself changes when comments are deleted. -/
def isMarred (s : Stmt) : Bool := s.isHollow || s.branches.any losesReturn

/-- The drawing of a statement somewhere in a body changes. -/
def ShowsIn (body : List Stmt) : Prop := ∃ s : Stmt, s.isMarred = true ∧ s.Inside body

/-- The drawing of a statement changes, or of one inside it. -/
def Shows (s : Stmt) : Prop := s.isMarred = true ∨ ∃ inner ∈ s.bodies, ShowsIn inner

theorem showsIn_cons (s : Stmt) (body : List Stmt) : ShowsIn (s :: body) ↔ s.Shows ∨ ShowsIn body :=
  exists_inside_cons (fun t => t.isMarred = true) s body

theorem not_showsIn_nil : ¬ ShowsIn [] := fun ⟨s, _, hs⟩ => not_inside_nil s hs

theorem not_shows_of_isComment (h : s.isComment = true) : ¬ s.Shows := by
  cases s <;> simp_all [isComment, Shows, isMarred, isHollow, branches, bodies]

/-- What is terminal only without its comments has a branch that loses its return. -/
theorem exists_losesReturn (h : s.isTerminal = false) (hplain : s.uncommented.isTerminal = true) :
    ∃ branch ∈ s.branches, losesReturn branch = true := by
  cases s with
  | ifElse condition body otherwise =>
    rw [isTerminal, Bool.and_eq_false_iff] at h
    rw [uncommented, isTerminal, Bool.and_eq_true] at hplain
    rcases h with hbody | hotherwise
    · exact ⟨body, by simp [branches], by simp [losesReturn, hbody, hplain.1]⟩
    · exact ⟨otherwise, by simp [branches], by simp [losesReturn, hotherwise, hplain.2]⟩
  | ret value => simp at h
  | _ => simp [uncommented] at hplain

/-- If comments hide the return at the end of a branch, a comment stands right after it, in this
    branch or in one inside it. -/
theorem exists_hidesReturn_of_losesReturn (h : losesReturn branch = true) : HidesReturn branch ∨
      ∃ t : Stmt, t.Inside branch ∧ ∃ inner ∈ t.branches, HidesReturn inner := by
  induction hsize : sizeOf branch using Nat.strongRecOn generalizing branch with
  | _ size ih =>
    obtain ⟨hends, hplain⟩ : endsTerminal branch = false ∧
        endsTerminal (uncommentedAll branch) = true := by simpa [losesReturn] using h
    rcases eq_nil_or_concat' branch with rfl | ⟨front, last, rfl⟩
    · simp [uncommentedAll] at hplain
    rw [endsTerminal_concat] at hends
    cases hlast : last.isComment with
    | true =>
      obtain ⟨text, rfl⟩ : ∃ text, last = comment text := by cases last <;> simp_all [isComment]
      refine .inl ⟨front, text, rfl, ?_⟩
      simpa [uncommentedAll_append, uncommentedAll, isComment] using hplain
    | false =>
      rw [uncommentedAll_append, uncommentedAll_cons_of_not_comment hlast, uncommentedAll,
        endsTerminal_concat] at hplain
      obtain ⟨inner, hbranch, hloses⟩ := exists_losesReturn hends hplain
      have hbody := mem_bodies_of_mem_branches hbranch
      have hmem : last ∈ front ++ [last] := by simp
      have hbodySize := sizeOf_lt_of_mem_bodies hbody
      have hmemSize := List.sizeOf_lt_of_mem hmem
      rcases ih (sizeOf inner) (by omega) hloses rfl with hhides | ⟨t, ht, hhides⟩
      · exact .inr ⟨last, .here hmem, inner, hbranch, hhides⟩
      · exact .inr ⟨t, .deeper hmem rfl hbody ht, hhides⟩

theorem HidesReturn.losesReturn_eq (h : HidesReturn branch) : losesReturn branch = true := by
  obtain ⟨front, text, rfl, hfront⟩ := h
  simpa [losesReturn, endsTerminal_concat, uncommentedAll_append, uncommentedAll,
    isComment] using hfront

/-- **Where comments show**: in a repeat loop that has nothing else, and after what always ends in
    a return. -/
theorem showsIn_iff (body : List Stmt) : ShowsIn body ↔ HasHollow body ∨
      ∃ s : Stmt, s.Inside body ∧ ∃ branch ∈ s.branches, HidesReturn branch := by
  constructor
  · rintro ⟨s, hs, hinside⟩
    rw [isMarred, Bool.or_eq_true, any_eq_true] at hs
    rcases hs with hhollow | ⟨branch, hbranch, hloses⟩
    · exact .inl ⟨s, hhollow, hinside⟩
    · rcases exists_hidesReturn_of_losesReturn hloses with hhides | ⟨t, ht, hhides⟩
      · exact .inr ⟨s, hinside, branch, hbranch, hhides⟩
      · exact .inr ⟨t, hinside.through rfl (mem_bodies_of_mem_branches hbranch) ht, hhides⟩
  · rintro (⟨s, hhollow, hinside⟩ | ⟨s, hinside, branch, hbranch, hhides⟩)
    · exact ⟨s, by rw [isMarred, hhollow, Bool.true_or], hinside⟩
    · have hany : s.branches.any losesReturn = true :=
        any_eq_true.mpr ⟨branch, hbranch, hhides.losesReturn_eq⟩
      exact ⟨s, by rw [isMarred, hany, Bool.or_true], hinside⟩

/-- Where comments do not show, a statement is terminal with or without them. -/
theorem isTerminal_uncommented_eq (h : ¬ s.Shows) : s.uncommented.isTerminal = s.isTerminal := by
  cases s with
  | ifElse condition body otherwise =>
    have hany : (ifElse condition body otherwise).branches.any losesReturn = false :=
      Bool.eq_false_iff.mpr fun hany => h (.inl (by rw [isMarred, hany, Bool.or_true]))
    obtain ⟨hbody, hotherwise⟩ : losesReturn body = false ∧ losesReturn otherwise = false := by
      simpa [branches] using hany
    rw [uncommented, isTerminal, isTerminal, losesReturn_eq_false_iff.mp hbody,
      losesReturn_eq_false_iff.mp hotherwise]
  | _ => rfl

section Constructors

variable (name : Name) (start stop condition : Expr) (body otherwise : List Stmt)

attribute [local simp] Shows isMarred isHollow branches

theorem shows_forLoop : (forLoop name start stop body).Shows ↔ ShowsIn body := by
  simp

theorem shows_whileLoop : (whileLoop condition body).Shows ↔ ShowsIn body := by
  simp

theorem shows_repeatLoop : (repeatLoop body condition).Shows ↔
    (body ≠ [] ∧ body.all isComment = true) ∨ ShowsIn body := by
  simp

theorem shows_ifThen : (ifThen condition body).Shows ↔ ShowsIn body ∨ losesReturn body = true := by
  simp [or_comm]

theorem shows_ifElse : (ifElse condition body otherwise).Shows ↔
    ((ShowsIn body ∨ losesReturn body = true) ∨ ShowsIn otherwise) ∨
      losesReturn otherwise = true := by
  have hiff : (ifElse condition body otherwise).Shows ↔
      (losesReturn body = true ∨ losesReturn otherwise = true) ∨
        (ShowsIn body ∨ ShowsIn otherwise) := by
    simp
  rw [hiff]
  tauto

end Constructors

end Stmt

/-! ### Data -/

namespace Value

/-- Comments in data. -/
def isCommentNode : Value → Bool
  | .node .comment _ => true
  | _ => false

mutual

/-- A statement in data without the comments inside it. -/
def uncommented : Value → Value
  | .node .forLoop [name, start, stop, body] =>
      .node .forLoop [name, start, stop, uncommentedBlock body]
  | .node .whileLoop [condition, body] => .node .whileLoop [condition, uncommentedBlock body]
  | .node .repeatLoop [body, condition] => .node .repeatLoop [uncommentedItems body, condition]
  | .node .ifStatement [condition, body, otherwise] =>
      .node .ifStatement [condition, uncommentedBlock body, uncommentedBlock otherwise]
  | v => v

/-- A block without its comments. -/
def uncommentedBlock : Value → Value
  | .node .block [statements] => .node .block [uncommentedItems statements]
  | v => v

/-- A list of statements without its comments. -/
def uncommentedItems : Value → Value
  | .list vs => .list (uncommentedAll vs)
  | v => v

/-- Statements without the comments among and inside them. -/
def uncommentedAll : List Value → List Value
  | [] => []
  | v :: vs => if v.isCommentNode then uncommentedAll vs else uncommented v :: uncommentedAll vs

end

/-- A subroutine without its comments. -/
def uncommentedSubroutine : Value → Value
  | .node .subroutine [name, parameters, declarations, body] =>
      .node .subroutine [name, parameters, declarations, uncommentedItems body]
  | v => v

variable {vs : List Value} {v : Value}

theorem IsDrawable.isComment_ofValue (h : v.IsDrawable) :
    (Stmt.ofValue v).isComment = v.isCommentNode := by
  cases h <;> rfl

theorem mem_uncommentedAll {u : Value} (h : u ∈ uncommentedAll vs) :
    ∃ v ∈ vs, u = v.uncommented := by
  induction vs with
  | nil => simp [uncommentedAll] at h
  | cons v vs ih =>
    rw [uncommentedAll] at h
    split at h
    · obtain ⟨w, hw, rfl⟩ := ih h
      exact ⟨w, mem_cons_of_mem v hw, rfl⟩
    · rcases mem_cons.mp h with rfl | h
      · exact ⟨v, mem_cons_self, rfl⟩
      · obtain ⟨w, hw, rfl⟩ := ih h
        exact ⟨w, mem_cons_of_mem v hw, rfl⟩

theorem forall_uncommentedAll (h : ∀ v ∈ vs, v.uncommented.IsDrawable) :
    ∀ v ∈ uncommentedAll vs, v.IsDrawable := by
  intro u hu
  obtain ⟨v, hv, rfl⟩ := mem_uncommentedAll hu
  exact h v hv

/-- Without its comments a statement can still be drawn. -/
theorem IsDrawable.uncommented (h : v.IsDrawable) : v.uncommented.IsDrawable := by
  induction h with
  | forLoop hname hstart hstop _ ih =>
    exact .forLoop hname hstart hstop (forall_uncommentedAll ih)
  | whileLoop hcondition _ ih => exact .whileLoop hcondition (forall_uncommentedAll ih)
  | repeatLoop hcondition _ ih => exact .repeatLoop hcondition (forall_uncommentedAll ih)
  | ifThen hcondition _ ih => exact .ifThen hcondition (forall_uncommentedAll ih)
  | ifElse hcondition _ _ ih ihotherwise =>
    exact .ifElse hcondition (forall_uncommentedAll ih) (forall_uncommentedAll ihotherwise)
  | assignment htarget hvalue => exact .assignment htarget hvalue
  | call hname harguments => exact .call hname harguments
  | ret hvalue => exact .ret hvalue
  | comment text => exact .comment text
  | declaration h => exact .declaration h

theorem ofValues_uncommentedAll (h : ∀ v ∈ vs, v.IsDrawable)
    (heq : ∀ v ∈ vs, Stmt.ofValue v.uncommented = (Stmt.ofValue v).uncommented) :
    Stmt.ofValues (uncommentedAll vs) = Stmt.uncommentedAll (Stmt.ofValues vs) := by
  induction vs with
  | nil => rfl
  | cons v vs ih =>
    obtain ⟨hv, hvs⟩ := forall_mem_cons.mp h
    obtain ⟨heqv, heqvs⟩ := forall_mem_cons.mp heq
    have hrest := ih hvs heqvs
    rw [uncommentedAll, Stmt.ofValues, Stmt.uncommentedAll, hv.isComment_ofValue]
    split
    · exact hrest
    · rw [Stmt.ofValues, heqv, hrest]

/-- **Deleting comments in data** is deleting them from the statements there. -/
theorem IsDrawable.ofValue_uncommented (h : v.IsDrawable) :
    Stmt.ofValue v.uncommented = (Stmt.ofValue v).uncommented := by
  induction h with
  | @forLoop name start stop body _ _ _ hbody ih =>
    exact congrArg (Stmt.forLoop (.ofValue name) (Expr.ofValue start) (Expr.ofValue stop))
      (ofValues_uncommentedAll hbody ih)
  | @whileLoop condition body _ hbody ih =>
    exact congrArg (Stmt.whileLoop (Expr.ofValue condition)) (ofValues_uncommentedAll hbody ih)
  | @repeatLoop condition body _ hbody ih =>
    exact congrArg (Stmt.repeatLoop · (Expr.ofValue condition)) (ofValues_uncommentedAll hbody ih)
  | @ifThen condition body _ hbody ih =>
    exact congrArg (Stmt.ifThen (Expr.ofValue condition)) (ofValues_uncommentedAll hbody ih)
  | @ifElse condition body otherwise _ hbody hotherwise ih ihotherwise =>
    exact congrArg₂ (Stmt.ifElse (Expr.ofValue condition)) (ofValues_uncommentedAll hbody ih)
      (ofValues_uncommentedAll hotherwise ihotherwise)
  | _ => rfl

end Value

/-- **A subroutine without its comments** has the same title, and its statements without
    comments. -/
theorem Value.IsDrawableSubroutine.exists_uncommented {v : Value} (h : v.IsDrawableSubroutine) :
    ∃ title s, Subroutine.ofValue? v = some s ∧
      Flowchart.ofValue v = .ok (Flowchart.ofBody title s.body) ∧
      Flowchart.ofValue v.uncommentedSubroutine
        = .ok (Flowchart.ofBody title (Stmt.uncommentedAll s.body)) := by
  obtain @⟨name, declarations, parameters, body, hname, hparameters, hbody⟩ := h
  obtain ⟨title, htitle⟩ := Flowchart.exists_titleOf hname hparameters
  have hplain : ∀ v ∈ uncommentedAll body, v.IsDrawable :=
    forall_uncommentedAll fun v hv => (hbody v hv).uncommented
  have hstatements : Stmt.ofValues (uncommentedAll body)
      = Stmt.uncommentedAll (Stmt.ofValues body) :=
    ofValues_uncommentedAll hbody fun v hv => (hbody v hv).ofValue_uncommented
  refine ⟨title, _, rfl, Flowchart.ofValue_eq htitle hbody, ?_⟩
  exact (Flowchart.ofValue_eq htitle hplain).trans (by rw [hstatements]; rfl)

end Ordo
