import Ordo.Analysis.Outcome

namespace Ordo

/-!
# Statements inside statements

* `Stmt.bodies` — the bodies that stand directly in a statement;
* `Stmt.Reached` — the statements that are reached from a body by entering some statements;
* `Stmt.Trail` — the statements that are entered on the way to a statement;
* `Stmt.any_iff_reached` — a search that enters them finds what is reached;
* `Stmt.anyRepeat_iff_reached` — an analysis meets a repeat loop if one is reached without
  entering repeat loops.
-/

open List

namespace Stmt

/-- The bodies of loops and the branches of conditionals. -/
def bodies : Stmt → List (List Stmt)
  | forLoop _ _ _ body => [body]
  | whileLoop _ body => [body]
  | repeatLoop body _ => [body]
  | ifThen _ body => [body]
  | ifElse _ body otherwise => [body, otherwise]
  | _ => []

/-- Repeat loops. -/
def isRepeat : Stmt → Bool
  | repeatLoop _ _ => true
  | _ => false

/-- A statement stands in a body or, at any depth, in the bodies of statements that are
    entered. -/
inductive Reached (enters : Stmt → Bool) (s : Stmt) : List Stmt → Prop
  | here {body : List Stmt} (h : s ∈ body) : Reached enters s body
  | deeper {t : Stmt} {inner body : List Stmt} (ht : t ∈ body) (hentered : enters t = true)
      (hinner : inner ∈ t.bodies) (h : Reached enters s inner) : Reached enters s body

/-- A statement stands in a body at any depth. -/
abbrev Inside (s : Stmt) (body : List Stmt) : Prop := Reached (fun _ => true) s body

/-- A statement is come to from a body through other statements, the outermost first. -/
inductive Trail (s : Stmt) : List Stmt → List Stmt → Prop
  | here {body : List Stmt} (h : s ∈ body) : Trail s body []
  | deeper {t : Stmt} {inner body through : List Stmt} (ht : t ∈ body) (hinner : inner ∈ t.bodies)
      (h : Trail s inner through) : Trail s body (t :: through)

variable {s : Stmt} {inner body : List Stmt} {enters : Stmt → Bool}

theorem sizeOf_lt_of_mem_bodies (h : inner ∈ s.bodies) : sizeOf inner < sizeOf s := by
  cases s <;> simp only [bodies, mem_cons, not_mem_nil, or_false] at h
  case ifElse condition body otherwise =>
    rcases h with rfl | rfl <;> simp <;> omega
  all_goals
    subst h
    simp
    try omega

/-- What is reached from a body is reached from one of its statements. -/
theorem reached_iff : Reached enters s body ↔
      ∃ t ∈ body, s = t ∨ enters t = true ∧ ∃ inner ∈ t.bodies, Reached enters s inner := by
  constructor
  · rintro (h | ⟨ht, hentered, hinner, h⟩)
    · exact ⟨s, h, .inl rfl⟩
    · exact ⟨_, ht, .inr ⟨hentered, _, hinner, h⟩⟩
  · rintro ⟨t, ht, rfl | ⟨hentered, inner, hinner, h⟩⟩
    · exact .here ht
    · exact .deeper ht hentered hinner h

/-- What is reached from a body of a statement that is reached is reached. -/
theorem Reached.through {t : Stmt}
    (ht : Reached enters t body) (hentered : enters t = true) (hinner : inner ∈ t.bodies)
    (h : Reached enters s inner) : Reached enters s body := by
  induction ht with
  | here hmem => exact .deeper hmem hentered hinner h
  | deeper hmem hentered' hinner' _ ih => exact .deeper hmem hentered' hinner' ih

theorem not_inside_nil (s : Stmt) : ¬ s.Inside [] := by
  intro h
  obtain ⟨t, ht, -⟩ := reached_iff.mp h
  simp at ht

/-- What is looked for in a body is its first statement, stands inside that, or stands in the
    rest. -/
theorem exists_inside_cons (p : Stmt → Prop) (s : Stmt) (body : List Stmt) :
    (∃ r, p r ∧ r.Inside (s :: body)) ↔
      (p s ∨ ∃ inner ∈ s.bodies, ∃ r, p r ∧ r.Inside inner) ∨ ∃ r, p r ∧ r.Inside body := by
  constructor
  · rintro ⟨r, hr, hinside⟩
    obtain ⟨t, ht, hcase⟩ := reached_iff.mp hinside
    rcases mem_cons.mp ht with rfl | ht
    · rcases hcase with rfl | ⟨-, inner, hinner, h⟩
      · exact .inl (.inl hr)
      · exact .inl (.inr ⟨inner, hinner, r, hr, h⟩)
    · exact .inr ⟨r, hr, reached_iff.mpr ⟨t, ht, hcase⟩⟩
  · rintro ((hs | ⟨inner, hinner, r, hr, h⟩) | ⟨r, hr, hinside⟩)
    · exact ⟨s, hs, .here mem_cons_self⟩
    · exact ⟨r, hr, .deeper mem_cons_self rfl hinner h⟩
    · obtain ⟨t, ht, hcase⟩ := reached_iff.mp hinside
      exact ⟨r, hr, reached_iff.mpr ⟨t, mem_cons_of_mem s ht, hcase⟩⟩

/-- A search that tests each statement and then the bodies of those it enters finds what is
    reached. -/
theorem any_iff_reached {enters wanted found : Stmt → Bool}
    (hfound : ∀ s, found s = (wanted s || enters s && s.bodies.any (·.any found)))
    (body : List Stmt) : body.any found = true ↔ ∃ s, wanted s = true ∧ Reached enters s body := by
  have hinner : ∀ t ∈ body, ∀ inner ∈ t.bodies,
      (inner.any found = true ↔ ∃ s, wanted s = true ∧ Reached enters s inner) := by
    intro t ht inner hmem
    have hsize := List.sizeOf_lt_of_mem ht
    have hsize' := sizeOf_lt_of_mem_bodies hmem
    exact any_iff_reached hfound inner
  constructor
  · intro h
    obtain ⟨t, ht, hfoundt⟩ := any_eq_true.mp h
    rw [hfound, Bool.or_eq_true, Bool.and_eq_true, any_eq_true] at hfoundt
    rcases hfoundt with hwanted | ⟨hentered, inner, hmem, hany⟩
    · exact ⟨t, hwanted, .here ht⟩
    · obtain ⟨s, hwanted, hreached⟩ := (hinner t ht inner hmem).mp hany
      exact ⟨s, hwanted, .deeper ht hentered hmem hreached⟩
  · rintro ⟨s, hwanted, hreached⟩
    obtain ⟨t, ht, hcase⟩ := reached_iff.mp hreached
    refine any_eq_true.mpr ⟨t, ht, ?_⟩
    rw [hfound, Bool.or_eq_true, Bool.and_eq_true, any_eq_true]
    rcases hcase with rfl | ⟨hentered, inner, hmem, h⟩
    · exact .inl hwanted
    · exact .inr ⟨hentered, inner, hmem, (hinner t ht inner hmem).mpr ⟨s, hwanted, h⟩⟩
termination_by sizeOf body
decreasing_by omega

theorem anyRepeat_eq_any (body : List Stmt) : anyRepeat body = body.any hasRepeat := by
  induction body with
  | nil => rfl
  | cons s body ih => rw [anyRepeat, any_cons, ih]

/-- **An analysis meets a repeat loop** if one is reached through the bodies of other loops and
    the branches of conditionals. -/
theorem anyRepeat_iff_reached (body : List Stmt) :
    anyRepeat body = true ↔ ∃ s, s.isRepeat = true ∧ Reached (fun t => !t.isRepeat) s body := by
  rw [anyRepeat_eq_any]
  refine any_iff_reached (fun s => ?_) body
  cases s <;> simp [hasRepeat, isRepeat, bodies, anyRepeat_eq_any]

/-- A body without repeat loops has no such loop among its statements, nor inside them. -/
theorem anyRepeat_of_mem (h : anyRepeat body = false) (hs : s ∈ body) :
    s.isRepeat = false ∧ ∀ inner ∈ s.bodies, anyRepeat inner = false := by
  have hs' : s.hasRepeat = false := by
    rw [anyRepeat_eq_any, any_eq_false] at h
    simpa using h s hs
  cases s <;> simp_all [hasRepeat, isRepeat, bodies]

end Stmt

end Ordo
