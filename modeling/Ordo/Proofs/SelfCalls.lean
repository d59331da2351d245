import Ordo.Classification
import Ordo.Proofs.Nested

namespace Ordo

/-!
# Which calls a classification finds

A subroutine is called recursive if a search of its body finds a call to it.  The search does
not look everywhere.

* `Expr.operands`, `Stmt.expressions` — what stands directly in an expression or a statement;
* `Expr.searched`, `Stmt.searched` — the part of it that the search looks at, and
  `Expr.overlooked`, `Stmt.overlooked` the rest;
* `Expr.Reached` — the expressions inside an expression, or those that the search comes to;
* `Expr.contains_iff_reached`, `Stmt.recursionsFrom_ne_nil_iff` — what the search finds;
* `Subroutine.CallsItself`, `Subroutine.ShowsCall`, `Subroutine.HidesCall` — a subroutine with a
  call to itself anywhere, where the search looks, and where it does not;
* `Subroutine.hasRecursion_iff_showsCall` — recursion is reported if a call is shown, which is
  right unless all calls are hidden.
-/

open List

namespace Expr

/-- Calls of the named function. -/
def isCallOf (name : Name) : Expr → Bool
  | call f _ => f.same name
  | _ => false

/-- The expressions that stand directly in an expression. -/
def operands : Expr → List Expr
  | var _ indices _ fieldIndices => indices ++ fieldIndices
  | slice _ indices _ fieldIndices start stop => indices ++ fieldIndices ++ [start, stop]
  | binary _ left right => [left, right]
  | unary _ operand => [operand]
  | call _ arguments => arguments
  | length operand => [operand]
  | ceiling operand => [operand]
  | floor operand => [operand]
  | _ => []

/-- The operands that a search for calls goes into. -/
def searched : Expr → List Expr
  | var _ indices _ _ => indices
  | slice _ indices _ _ _ _ => indices
  | binary _ left right => [left, right]
  | unary _ operand => [operand]
  | call _ arguments => arguments
  | ceiling operand => [operand]
  | floor operand => [operand]
  | _ => []

/-- The operands that it leaves out: the indices of a field, the ends of a range, and what a
    length is taken of. -/
def overlooked : Expr → List Expr
  | var _ _ _ fieldIndices => fieldIndices
  | slice _ _ _ fieldIndices start stop => fieldIndices ++ [start, stop]
  | length operand => [operand]
  | _ => []

variable {d e f : Expr}

theorem mem_operands_iff : d ∈ e.operands ↔ d ∈ e.searched ∨ d ∈ e.overlooked := by
  cases e <;> simp [operands, searched, overlooked]

theorem sizeOf_lt_of_mem_searched (h : d ∈ e.searched) : sizeOf d < sizeOf e := by
  cases e <;> simp only [searched, mem_cons, not_mem_nil, or_false] at h
  case var name indices field fieldIndices =>
    have := List.sizeOf_lt_of_mem h
    simp only [var.sizeOf_spec]
    omega
  case slice name indices field fieldIndices start stop =>
    have := List.sizeOf_lt_of_mem h
    simp only [slice.sizeOf_spec]
    omega
  case call name arguments =>
    have := List.sizeOf_lt_of_mem h
    simp only [call.sizeOf_spec]
    omega
  case binary operator left right =>
    rcases h with rfl | rfl <;> simp only [binary.sizeOf_spec] <;> omega
  all_goals
    subst h
    simp
    try omega

/-- An expression is another one, or stands in it at any depth below the given parts. -/
inductive Reached (parts : Expr → List Expr) (e : Expr) : Expr → Prop
  | here : Reached parts e e
  | deeper {d f : Expr} (hd : d ∈ parts f) (h : Reached parts e d) : Reached parts e f

/-- An expression stands in another one at any depth. -/
abbrev Inside (e f : Expr) : Prop := Reached operands e f

theorem Reached.inside (h : Reached searched e f) : Inside e f := by
  induction h with
  | here => exact .here
  | deeper hd _ ih => exact .deeper (mem_operands_iff.mpr (.inl hd)) ih

/-- **What the search does not come to** stands below an operand that it leaves out. -/
theorem inside_iff : Inside e f ↔ Reached searched e f ∨
      ∃ g d, Reached searched g f ∧ d ∈ g.overlooked ∧ Inside e d := by
  constructor
  · intro h
    induction h with
    | here => exact .inl .here
    | @deeper d f hd h ih =>
      rcases mem_operands_iff.mp hd with hsearched | hoverlooked
      · rcases ih with hreached | ⟨g, c, hg, hc, hinside⟩
        · exact .inl (.deeper hsearched hreached)
        · exact .inr ⟨g, c, .deeper hsearched hg, hc, hinside⟩
      · exact .inr ⟨f, d, .here, hoverlooked, h⟩
  · rintro (h | ⟨g, d, hg, hd, h⟩)
    · exact h.inside
    · have hgd : Inside e g := .deeper (mem_operands_iff.mpr (.inr hd)) h
      clear h hd
      induction hg with
      | here => exact hgd
      | deeper hc _ ih => exact .deeper (mem_operands_iff.mpr (.inl hc)) ih

/-- A search that tests an expression and then some parts of it finds what is reached. -/
theorem found_iff_reached {parts : Expr → List Expr} {wanted found : Expr → Bool}
    (hsize : ∀ d e, d ∈ parts e → sizeOf d < sizeOf e)
    (hfound : ∀ e, found e = (wanted e || (parts e).any found)) (e : Expr) :
    found e = true ↔ ∃ c, wanted c = true ∧ Reached parts c e := by
  rw [hfound, Bool.or_eq_true, any_eq_true]
  have hinner : ∀ d ∈ parts e,
      (found d = true ↔ ∃ c, wanted c = true ∧ Reached parts c d) := by
    intro d hd
    have hlt := hsize d e hd
    exact found_iff_reached hsize hfound d
  constructor
  · rintro (h | ⟨d, hd, h⟩)
    · exact ⟨e, h, .here⟩
    · obtain ⟨c, hc, hreached⟩ := (hinner d hd).mp h
      exact ⟨c, hc, .deeper hd hreached⟩
  · rintro ⟨c, hc, hreached⟩
    cases hreached with
    | here => exact .inl hc
    | @deeper d _ hd hreached => exact .inr ⟨d, hd, (hinner d hd).mpr ⟨c, hc, hreached⟩⟩
termination_by sizeOf e

theorem anyContains_eq_any (name : Name) (es : List Expr) :
    anyContains name es = es.any (contains name) := by
  induction es with
  | nil => rfl
  | cons e es ih => rw [anyContains, any_cons, ih]

/-- One step of the search. -/
theorem contains_eq (name : Name) (e : Expr) :
    e.contains name = (e.isCallOf name || e.searched.any (contains name)) := by
  cases e <;> simp [contains, isCallOf, searched, anyContains_eq_any]

/-- **The search finds** the calls that it comes to. -/
theorem contains_iff_reached (name : Name) (e : Expr) :
    e.contains name = true ↔ ∃ c, c.isCallOf name = true ∧ Reached searched c e :=
  found_iff_reached (fun _ _ => sizeOf_lt_of_mem_searched) (contains_eq name) e

end Expr

namespace Stmt

/-- Calls of the named subroutine. -/
def isCallOf (name : Name) : Stmt → Bool
  | call f _ => f.same name
  | _ => false

/-- The expressions that stand directly in a statement. -/
def expressions : Stmt → List Expr
  | assign target value => [target, value]
  | forLoop _ start stop _ => [start, stop]
  | whileLoop condition _ => [condition]
  | repeatLoop _ condition => [condition]
  | ifThen condition _ => [condition]
  | ifElse condition _ _ => [condition]
  | call _ arguments => arguments
  | ret value => [value]
  | _ => []

/-- The expressions that a search for calls looks at. -/
def searched : Stmt → List Expr
  | assign _ value => [value]
  | ifThen condition _ => [condition]
  | ifElse condition _ _ => [condition]
  | ret value => [value]
  | _ => []

/-- The expressions that it leaves out: the target of an assignment, the ends of a loop's range,
    the condition of a loop, and the arguments of a call. -/
def overlooked : Stmt → List Expr
  | assign target _ => [target]
  | forLoop _ start stop _ => [start, stop]
  | whileLoop condition _ => [condition]
  | repeatLoop _ condition => [condition]
  | call _ arguments => arguments
  | _ => []

variable (name : Name) (index : Nat) (body : List Stmt) {s : Stmt}

theorem mem_expressions_iff {e : Expr} : e ∈ s.expressions ↔ e ∈ s.searched ∨ e ∈ s.overlooked := by
  cases s <;> simp [expressions, searched, overlooked, or_comm]

/-- Whether the search finds a call in a statement. -/
def finds (name : Name) (s : Stmt) : Bool := !(recursions name 0 s).isEmpty

/-- The number of a statement does not matter for whether a call is found. -/
theorem recursions_eq_nil_iff (s : Stmt) : recursions name index s = [] ↔ s.finds name = false := by
  cases s <;> simp [finds, recursions, Expr.recursion]

theorem recursionsFrom_eq_nil_iff :
    recursionsFrom name index body = [] ↔ body.any (finds name) = false := by
  induction body generalizing index with
  | nil => simp [recursionsFrom]
  | cons s body ih =>
    rw [recursionsFrom, append_eq_nil_iff, recursions_eq_nil_iff, ih, any_cons,
      Bool.or_eq_false_iff]

/-- One step of the search. -/
theorem finds_eq (s : Stmt) :
    s.finds name = ((s.isCallOf name || s.searched.any (·.contains name)) ||
      !s.isRepeat && s.bodies.any (·.any (finds name))) := by
  rw [← Bool.not_inj_iff, ← Bool.coe_iff_coe]
  cases s <;> simp [finds, recursions, Expr.recursion, recursionsFrom_eq_nil_iff, isCallOf,
    searched, bodies, isRepeat]

/-- **The search of a body finds** a statement that it comes to and that calls the function, or
    has a call in an expression that is looked at. -/
theorem recursionsFrom_ne_nil_iff :
    recursionsFrom name 0 body ≠ [] ↔
      ∃ s, Reached (fun t => !t.isRepeat) s body ∧
        (s.isCallOf name = true ∨
          ∃ e ∈ s.searched, ∃ c, c.isCallOf name = true ∧ Expr.Reached Expr.searched c e) := by
  rw [Ne, recursionsFrom_eq_nil_iff, Bool.not_eq_false, any_iff_reached (finds_eq name)]
  simp only [Bool.or_eq_true, any_eq_true, Expr.contains_iff_reached, and_comm]

/-- Without repeat loops all statements are come to. -/
theorem reached_iff_inside {body : List Stmt} (h : anyRepeat body = false) :
    Reached (fun t => !t.isRepeat) s body ↔ Inside s body := by
  constructor
  · intro hreached
    clear h
    induction hreached with
    | here hs => exact .here hs
    | deeper ht _ hinner _ ih => exact .deeper ht rfl hinner ih
  · intro hinside
    induction hinside with
    | here hs => exact .here hs
    | @deeper t inner body ht _ hinner _ ih =>
      obtain ⟨hrepeat, hbodies⟩ := anyRepeat_of_mem h ht
      exact .deeper ht (by rw [hrepeat]; rfl) hinner (ih (hbodies inner hinner))

end Stmt

namespace Subroutine

/-- A subroutine calls itself: by a statement, or in any expression of any statement. -/
def CallsItself (s : Subroutine) : Prop :=
  ∃ t, Stmt.Inside t s.body ∧ (t.isCallOf s.name = true ∨
    ∃ e ∈ t.expressions, ∃ c, c.isCallOf s.name = true ∧ Expr.Inside c e)

/-- A subroutine calls itself where a search looks. -/
def ShowsCall (s : Subroutine) : Prop :=
  ∃ t, Stmt.Inside t s.body ∧ (t.isCallOf s.name = true ∨
    ∃ e ∈ t.searched, ∃ c, c.isCallOf s.name = true ∧ Expr.Reached Expr.searched c e)

/-- A subroutine calls itself where no search looks: in an expression that is left out, or below
    an operand that is. -/
def HidesCall (s : Subroutine) : Prop :=
  ∃ t, Stmt.Inside t s.body ∧ ∃ c, c.isCallOf s.name = true ∧
    ((∃ e ∈ t.overlooked, Expr.Inside c e) ∨
      ∃ e ∈ t.searched, ∃ f d, Expr.Reached Expr.searched f e ∧ d ∈ f.overlooked ∧
        Expr.Inside c d)

/-- A call is where a search looks or where it does not. -/
theorem callsItself_iff (s : Subroutine) : s.CallsItself ↔ s.ShowsCall ∨ s.HidesCall := by
  constructor
  · rintro ⟨t, ht, hcall | ⟨e, he, c, hc, hinside⟩⟩
    · exact .inl ⟨t, ht, .inl hcall⟩
    · rcases Stmt.mem_expressions_iff.mp he with hsearched | hoverlooked
      · rcases Expr.inside_iff.mp hinside with hreached | ⟨f, d, hf, hd, hinside⟩
        · exact .inl ⟨t, ht, .inr ⟨e, hsearched, c, hc, hreached⟩⟩
        · exact .inr ⟨t, ht, c, hc, .inr ⟨e, hsearched, f, d, hf, hd, hinside⟩⟩
      · exact .inr ⟨t, ht, c, hc, .inl ⟨e, hoverlooked, hinside⟩⟩
  · rintro (⟨t, ht, hcall | ⟨e, he, c, hc, hreached⟩⟩ |
      ⟨t, ht, c, hc, ⟨e, he, hinside⟩ | ⟨e, he, f, d, hf, hd, hinside⟩⟩)
    · exact ⟨t, ht, .inl hcall⟩
    · exact ⟨t, ht, .inr ⟨e, Stmt.mem_expressions_iff.mpr (.inl he), c, hc, hreached.inside⟩⟩
    · exact ⟨t, ht, .inr ⟨e, Stmt.mem_expressions_iff.mpr (.inr he), c, hc, hinside⟩⟩
    · exact ⟨t, ht, .inr ⟨e, Stmt.mem_expressions_iff.mpr (.inl he), c, hc,
        Expr.inside_iff.mpr (.inr ⟨f, d, hf, hd, hinside⟩)⟩⟩

/-- **When recursion is reported.**  A subroutine without repeat loops is classified, and as
    recursive if and only if it calls itself where the search looks.  So the report says whether
    it calls itself at all unless it does so only where the search does not look. -/
theorem hasRecursion_iff_showsCall (s : Subroutine) (h : Stmt.anyRepeat s.body = false) :
    ∃ c, s.classify = .ok c ∧ (c.hasRecursion = true ↔ s.ShowsCall) ∧
      ((c.hasRecursion = true ↔ s.CallsItself) ↔ (s.HidesCall → s.ShowsCall)) := by
  have hclassify : s.classify = .ok ⟨s.name, s.parameters.map Parameter.name, .ofBody s.body,
      Stmt.recursionsFrom s.name 0 s.body⟩ := by
    rw [classify, whenWalkable, h]
    rfl
  have hfound : (!(Stmt.recursionsFrom s.name 0 s.body).isEmpty) = true ↔ s.ShowsCall := by
    rw [Bool.not_eq_true', List.isEmpty_eq_false_iff, Stmt.recursionsFrom_ne_nil_iff]
    simp only [Stmt.reached_iff_inside h, ShowsCall]
  refine ⟨_, hclassify, hfound, ?_⟩
  rw [SubroutineClass.hasRecursion, hfound, callsItself_iff]
  constructor
  · intro hiff hhides
    exact hiff.mpr (.inr hhides)
  · intro himp
    exact ⟨.inl, fun hcalls => hcalls.elim id himp⟩

/-- A subroutine that calls itself in the condition of a loop. -/
def untilDone : Subroutine where
  name := "f"
  parameters := [⟨"n", .simple⟩]
  declarations := []
  body := [.whileLoop (.call "f" [.var "n" [] none []])
    [.assign (.var "x" [] none []) (.number (.whole 1))]]

/-- The call in the condition of the loop is hidden, and recursion is not reported. -/
theorem hasRecursion_iff_showsCall_untilDone : Stmt.anyRepeat untilDone.body = false ∧
      ∃ c, untilDone.classify = .ok c ∧ c.hasRecursion = false ∧ untilDone.CallsItself := by
  obtain ⟨c, hc, -, -⟩ := hasRecursion_iff_showsCall untilDone rfl
  refine ⟨rfl, c, hc, ?_, ?_⟩
  · obtain rfl := Except.ok.inj hc
    rfl
  · exact ⟨_, .here List.mem_cons_self, .inr ⟨_, List.mem_cons_self, _, rfl, .here⟩⟩

end Subroutine

end Ordo
