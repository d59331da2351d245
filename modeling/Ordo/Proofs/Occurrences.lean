import Mathlib.Data.List.Nodup
import Ordo.Program.Position
import Ordo.Proofs.Nested

namespace Ordo

/-!
# Where statements stand

A statement may stand in a body at several places, and each place has its own path.  Analyses
list what they find on a walk through a body; all such walks go through the same places in the
same order.

* `Stmt.preorderAll`, `Stmt.mem_preorderAll_iff` — the statements inside a body, in the order of
  the text;
* `Stmt.openOrderAll`, `Stmt.mem_openOrderAll_iff` — those that do not stand inside repeat loops;
* `Occurrence`, `Stmt.occurrencesFrom` — the statements with their places;
* `Stmt.map_stmt_occurrencesFrom` — without repeat loops nothing else stands inside the body;
* `Occurrence.address`, `Stmt.nodup_address` — no two places have the same address;
* `Survey`, `Survey.Makes.eq_flatMap` — what is listed on a walk is taken from each place in
  turn.
-/

open List

namespace Stmt

/-! ### Statements in the order of the text -/

mutual

/-- A statement and those inside it, in the order of the text. -/
def preorder : Stmt → List Stmt
  | forLoop name start stop body => forLoop name start stop body :: preorderAll body
  | whileLoop condition body => whileLoop condition body :: preorderAll body
  | repeatLoop body condition => repeatLoop body condition :: preorderAll body
  | ifThen condition body => ifThen condition body :: preorderAll body
  | ifElse condition body otherwise =>
      ifElse condition body otherwise :: (preorderAll body ++ preorderAll otherwise)
  | s => [s]

/-- The statements inside a body, in the order of the text. -/
def preorderAll : List Stmt → List Stmt
  | [] => []
  | s :: ss => preorder s ++ preorderAll ss

end

theorem preorder_eq (s : Stmt) : s.preorder = s :: s.bodies.flatMap preorderAll := by
  cases s <;> simp [preorder, bodies]

theorem preorderAll_eq_flatMap (body : List Stmt) : preorderAll body = body.flatMap preorder := by
  induction body with
  | nil => rfl
  | cons s body ih => rw [preorderAll, ih, flatMap_cons]

/-- To prove something of all bodies, it may be assumed of those inside the statements. -/
@[elab_as_elim]
theorem bodyInduction {motive : List Stmt → Prop}
    (step : ∀ body, (∀ s ∈ body, ∀ inner ∈ s.bodies, motive inner) → motive body)
    (body : List Stmt) : motive body := by
  refine step body fun s hs inner hinner => ?_
  have hsize := List.sizeOf_lt_of_mem hs
  have hsize' := sizeOf_lt_of_mem_bodies hinner
  exact bodyInduction step inner
termination_by sizeOf body
decreasing_by omega

variable {body : List Stmt} {s : Stmt} {p : Part × List Stmt}

/-- To prove something of all bodies without repeat loops, it may be assumed of those inside the
    statements. -/
@[elab_as_elim]
theorem plainInduction {motive : List Stmt → Prop}
    (step : ∀ body, (∀ s ∈ body, s.isRepeat = false ∧ ∀ inner ∈ s.bodies, motive inner) →
      motive body) (h : anyRepeat body = false) : motive body := by
  induction body using bodyInduction with
  | step body ih =>
    refine step body fun s hs => ?_
    obtain ⟨hrepeat, hbodies⟩ := anyRepeat_of_mem h hs
    exact ⟨hrepeat, fun inner hinner => ih s hs inner hinner (hbodies inner hinner)⟩

/-- **What is listed is what stands inside.** -/
theorem mem_preorderAll_iff : s ∈ preorderAll body ↔ s.Inside body := by
  induction body using bodyInduction with
  | step body ih =>
    rw [preorderAll_eq_flatMap, mem_flatMap, Inside, reached_iff]
    refine exists_congr fun t => and_congr_right fun ht => ?_
    rw [preorder_eq, mem_cons, mem_flatMap]
    refine or_congr_right ?_
    rw [eq_self, true_and]
    exact exists_congr fun inner => and_congr_right fun hinner => ih t ht inner hinner

/-! ### Parts -/

/-- The bodies that analyses enter, with the parts that they are. -/
def parts : Stmt → List (Part × List Stmt)
  | forLoop _ _ _ body => [(.forBody, body)]
  | whileLoop _ body => [(.whileBody, body)]
  | ifThen _ body => [(.thenBranch, body)]
  | ifElse _ body otherwise => [(.thenBranch, body), (.elseBranch, otherwise)]
  | _ => []

theorem bodies_eq_map_parts (h : s.isRepeat = false) : s.bodies = s.parts.map Prod.snd := by
  cases s <;> simp_all [bodies, parts, isRepeat]

theorem isRepeat_of_mem_parts (h : p ∈ s.parts) : s.isRepeat = false := by
  cases s <;> simp_all [parts, isRepeat]

theorem mem_bodies_of_mem_parts (h : p ∈ s.parts) : p.2 ∈ s.bodies := by
  rw [bodies_eq_map_parts (isRepeat_of_mem_parts h)]
  exact mem_map_of_mem h

/-! ### Statements outside repeat loops -/

mutual

/-- A statement and those inside it, but not those inside repeat loops, in the order of the
    text. -/
def openOrder : Stmt → List Stmt
  | forLoop name start stop body => forLoop name start stop body :: openOrderAll body
  | whileLoop condition body => whileLoop condition body :: openOrderAll body
  | ifThen condition body => ifThen condition body :: openOrderAll body
  | ifElse condition body otherwise =>
      ifElse condition body otherwise :: (openOrderAll body ++ openOrderAll otherwise)
  | s => [s]

/-- The statements inside a body, but not those inside repeat loops, in the order of the text. -/
def openOrderAll : List Stmt → List Stmt
  | [] => []
  | s :: ss => openOrder s ++ openOrderAll ss

end

theorem openOrder_eq (s : Stmt) : s.openOrder = s :: s.parts.flatMap fun p => openOrderAll p.2 := by
  cases s <;> simp [openOrder, parts]

theorem openOrderAll_eq_flatMap (body : List Stmt) :
    openOrderAll body = body.flatMap openOrder := by
  induction body with
  | nil => rfl
  | cons s body ih => rw [openOrderAll, ih, flatMap_cons]

/-- **What is listed is what is reached** without entering repeat loops. -/
theorem mem_openOrderAll_iff : s ∈ openOrderAll body ↔ Reached (fun t => !t.isRepeat) s body := by
  induction body using bodyInduction with
  | step body ih =>
    rw [openOrderAll_eq_flatMap, mem_flatMap, reached_iff]
    refine exists_congr fun t => and_congr_right fun ht => ?_
    rw [openOrder_eq, mem_cons, mem_flatMap]
    refine or_congr_right ?_
    constructor
    · rintro ⟨p, hp, hs⟩
      refine ⟨by rw [isRepeat_of_mem_parts hp]; rfl, p.2, mem_bodies_of_mem_parts hp, ?_⟩
      exact (ih t ht p.2 (mem_bodies_of_mem_parts hp)).mp hs
    · rintro ⟨hrepeat, inner, hinner, hs⟩
      have hmem := hinner
      rw [bodies_eq_map_parts (by simpa using hrepeat), mem_map] at hmem
      obtain ⟨p, hp, rfl⟩ := hmem
      exact ⟨p, hp, (ih t ht p.2 hinner).mpr hs⟩

/-- Without repeat loops all statements are listed. -/
theorem openOrderAll_eq_preorderAll (h : anyRepeat body = false) :
    openOrderAll body = preorderAll body := by
  refine plainInduction ?_ h
  intro body ih
  rw [openOrderAll_eq_flatMap, preorderAll_eq_flatMap]
  refine flatMap_congr fun s hs => ?_
  obtain ⟨hrepeat, hbodies⟩ := ih s hs
  rw [openOrder_eq, preorder_eq, bodies_eq_map_parts hrepeat, flatMap_map]
  congr 1
  exact flatMap_congr fun p hp => hbodies p.2 (mem_bodies_of_mem_parts hp)

end Stmt

/-! ### Places -/

/-- A statement at a place of a body: after the steps of a path it is the one with an index. -/
structure Occurrence where
  path : Path
  index : Nat
  stmt : Stmt

/-- An occurrence seen from outside a part of a statement. -/
def Occurrence.below (step : Step) (o : Occurrence) : Occurrence :=
  { o with path := step :: o.path }

namespace Stmt

mutual

/-- The occurrences at the statement with the given index. -/
def occurrences (index : Nat) : Stmt → List Occurrence
  | forLoop name start stop body =>
      ⟨[], index, forLoop name start stop body⟩
        :: (occurrencesFrom 0 body).map (.below ⟨index, .forBody⟩)
  | whileLoop condition body =>
      ⟨[], index, whileLoop condition body⟩
        :: (occurrencesFrom 0 body).map (.below ⟨index, .whileBody⟩)
  | ifThen condition body =>
      ⟨[], index, ifThen condition body⟩
        :: (occurrencesFrom 0 body).map (.below ⟨index, .thenBranch⟩)
  | ifElse condition body otherwise =>
      ⟨[], index, ifElse condition body otherwise⟩
        :: ((occurrencesFrom 0 body).map (.below ⟨index, .thenBranch⟩)
          ++ (occurrencesFrom 0 otherwise).map (.below ⟨index, .elseBranch⟩))
  | s => [⟨[], index, s⟩]

/-- The occurrences in several statements, of which the first has the given index. -/
def occurrencesFrom (index : Nat) : List Stmt → List Occurrence
  | [] => []
  | s :: ss => occurrences index s ++ occurrencesFrom (index + 1) ss

end

theorem occurrences_eq (index : Nat) (s : Stmt) : s.occurrences index = ⟨[], index, s⟩ ::
      s.parts.flatMap fun p => (occurrencesFrom 0 p.2).map (.below ⟨index, p.1⟩) := by
  cases s <;> simp [occurrences, parts]

variable {body : List Stmt}

/-- An occurrence is a statement of the body, or one inside a part of such a statement. -/
theorem mem_occurrencesFrom {o : Occurrence} {index : Nat} :
    o ∈ occurrencesFrom index body ↔ ∃ i s, body[i]? = some s ∧
      (o = ⟨[], index + i, s⟩ ∨
        ∃ p ∈ s.parts, ∃ u ∈ occurrencesFrom 0 p.2, o = u.below ⟨index + i, p.1⟩) := by
  have hhead : ∀ {index : Nat} {s : Stmt}, o ∈ s.occurrences index ↔ o = ⟨[], index, s⟩ ∨
      ∃ p ∈ s.parts, ∃ u ∈ occurrencesFrom 0 p.2, o = u.below ⟨index, p.1⟩ := by
    intro index s
    rw [occurrences_eq, mem_cons, mem_flatMap]
    simp only [mem_map, eq_comm]
  induction body generalizing index with
  | nil => simp [occurrencesFrom]
  | cons t body ih =>
    rw [occurrencesFrom, mem_append]
    refine (or_congr hhead ih).trans ?_
    constructor
    · rintro (h | ⟨i, s, hs, h⟩)
      · exact ⟨0, t, rfl, h⟩
      · refine ⟨i + 1, s, hs, ?_⟩
        rwa [← Nat.add_assoc, Nat.add_right_comm]
    · rintro ⟨i, s, hs, h⟩
      cases i with
      | zero =>
        obtain rfl : t = s := by simpa using hs
        exact .inl h
      | succ i =>
        refine .inr ⟨i, s, hs, ?_⟩
        rwa [Nat.add_right_comm, Nat.add_assoc]

/-- **The occurrences** are the statements outside repeat loops. -/
theorem map_stmt_eq_openOrderAll (index : Nat) (body : List Stmt) :
    (occurrencesFrom index body).map Occurrence.stmt = openOrderAll body := by
  induction body using bodyInduction generalizing index with
  | step body ih =>
    have hstmt : ∀ s ∈ body, ∀ index, (s.occurrences index).map Occurrence.stmt = s.openOrder := by
      intro s hs index
      rw [occurrences_eq, map_cons, map_flatMap, openOrder_eq]
      congr 1
      refine flatMap_congr fun p hp => ?_
      rw [map_map]
      exact ih s hs p.2 (mem_bodies_of_mem_parts hp) 0
    clear ih
    induction body generalizing index with
    | nil => rfl
    | cons s body ih =>
      obtain ⟨hs, hbody⟩ := forall_mem_cons.mp hstmt
      rw [occurrencesFrom, map_append, hs index, ih (index + 1) hbody, openOrderAll]

/-- **Without repeat loops** the occurrences are all that stands inside a body. -/
theorem map_stmt_occurrencesFrom (h : anyRepeat body = false) (index : Nat) :
    (occurrencesFrom index body).map Occurrence.stmt = preorderAll body := by
  rw [map_stmt_eq_openOrderAll, openOrderAll_eq_preorderAll h]

/-- What stands inside a body without repeat loops has a place there. -/
theorem inside_iff_exists_occurrence {s : Stmt} (h : anyRepeat body = false) :
    s.Inside body ↔ ∃ o ∈ occurrencesFrom 0 body, o.stmt = s := by
  rw [← mem_preorderAll_iff, ← map_stmt_occurrencesFrom h 0, mem_map]

end Stmt

/-! ### Addresses -/

/-- The address of an occurrence: the steps to it with labels for the parts, and its index. -/
def Occurrence.address (label : PartLabel) (o : Occurrence) : List (Nat × String) × Nat :=
  (o.path.map fun s => (s.index, label s.part), o.index)

/-- The first index in an address. -/
def Occurrence.firstIndex (a : List (Nat × String) × Nat) : Nat :=
  (a.1.head?.map Prod.fst).getD a.2

namespace Stmt

open Occurrence

theorem address_below (label : PartLabel) (step : Step) (o : Occurrence) :
    (o.below step).address label
      = ((step.index, label step.part) :: (o.address label).1, (o.address label).2) := rfl

variable {label : PartLabel} {index : Nat} {a : List (Nat × String) × Nat}

theorem firstIndex_of_mem_occurrences {s : Stmt}
    (h : a ∈ (s.occurrences index).map (address label)) : firstIndex a = index := by
  rw [occurrences_eq, map_cons, mem_cons, map_flatMap, mem_flatMap] at h
  rcases h with rfl | ⟨p, -, h⟩
  · rfl
  · rw [map_map, mem_map] at h
    obtain ⟨o, -, rfl⟩ := h
    rfl

theorem le_firstIndex {body : List Stmt}
    (h : a ∈ (occurrencesFrom index body).map (address label)) : index ≤ firstIndex a := by
  induction body generalizing index with
  | nil => simp [occurrencesFrom] at h
  | cons s body ih =>
    rw [occurrencesFrom, map_append, mem_append] at h
    rcases h with h | h
    · exact Nat.le_of_eq (firstIndex_of_mem_occurrences h).symm
    · have hnext := ih h
      omega

/-- The parts of one statement have different labels. -/
theorem pairwise_parts (hlabel : label .thenBranch ≠ label .elseBranch)
    (s : Stmt) : s.parts.Pairwise fun p q => label p.1 ≠ label q.1 := by
  cases s <;> simp [parts, hlabel]

/-- **No two occurrences have the same address**, if branches have different labels. -/
theorem nodup_address (hlabel : label .thenBranch ≠ label .elseBranch)
    (index : Nat) (body : List Stmt) :
    ((occurrencesFrom index body).map (address label)).Nodup := by
  induction body using bodyInduction generalizing index with
  | step body ih =>
    -- inside one statement, the parts are told apart by their labels
    have hstmt : ∀ s ∈ body, ∀ index, ((s.occurrences index).map (address label)).Nodup := by
      intro s hs index
      rw [occurrences_eq, map_cons, nodup_cons, map_flatMap]
      constructor
      · intro hmem
        obtain ⟨p, -, hmem⟩ := mem_flatMap.mp hmem
        obtain ⟨o, ho, heq⟩ := mem_map.mp hmem
        obtain ⟨u, -, rfl⟩ := mem_map.mp ho
        rw [address_below] at heq
        simp [address] at heq
      · rw [nodup_flatMap]
        constructor
        · intro p hp
          have hinner := ih s hs p.2 (mem_bodies_of_mem_parts hp) 0
          rw [map_map]
          refine List.Nodup.of_map (fun a => (a.1.tail, a.2)) ?_
          rw [map_map]
          exact hinner
        · refine (pairwise_parts hlabel s).imp fun {p q} hne => ?_
          refine disjoint_left.mpr ?_
          intro a hp hq
          obtain ⟨o, ho, rfl⟩ := mem_map.mp hp
          obtain ⟨u, -, rfl⟩ := mem_map.mp ho
          obtain ⟨o', ho', heq⟩ := mem_map.mp hq
          obtain ⟨u', -, rfl⟩ := mem_map.mp ho'
          simp only [address_below, Prod.mk.injEq, List.cons.injEq] at heq
          exact hne heq.1.1.2.symm
    clear ih
    induction body generalizing index with
    | nil => simp [occurrencesFrom]
    | cons s body ih =>
      obtain ⟨hs, hbody⟩ := forall_mem_cons.mp hstmt
      rw [occurrencesFrom, map_append, nodup_append]
      refine ⟨hs index, ih (index + 1) hbody, fun a ha b hb heq => ?_⟩
      have hfirst := firstIndex_of_mem_occurrences ha
      have hnext := le_firstIndex hb
      rw [← heq, hfirst] at hnext
      omega

end Stmt

/-! ### Surveys -/

section Surveys

variable {κ α : Type}

/-- A way to list things on a walk through a body: what is taken from a statement itself, what is
    known inside a part of it, and how things in the part are seen from outside. -/
structure Survey (κ α : Type) where
  own : κ → Nat → Stmt → List α
  enter : κ → Part → κ
  below : Step → α → α

/-- A function lists things so, for statements of which the first has the given index. -/
structure Survey.Makes (l : Survey κ α) (list : κ → Nat → List Stmt → List α) : Prop where
  nil : ∀ known index, list known index [] = []
  cons : ∀ known index s body, list known index (s :: body)
    = (l.own known index s ++ s.parts.flatMap fun p =>
        (list (l.enter known p.1) 0 p.2).map (l.below ⟨index, p.1⟩))
      ++ list known (index + 1) body

/-- What is taken from an occurrence, as it is seen from the whole body. -/
def Survey.ofOccurrence (l : Survey κ α) (known : κ) (o : Occurrence) : List α :=
  (l.own ((o.path.map Step.part).foldl l.enter known) o.index o.stmt).map
    fun a => o.path.foldr l.below a

theorem Survey.ofOccurrence_below (l : Survey κ α) (known : κ) (step : Step) (o : Occurrence) :
    l.ofOccurrence known (o.below step)
      = (l.ofOccurrence (l.enter known step.part) o).map (l.below step) := by
  rw [ofOccurrence, ofOccurrence, map_map]
  rfl

/-- **What is listed on a walk is taken from each occurrence in turn.** -/
theorem Survey.Makes.eq_flatMap {l : Survey κ α} {list : κ → Nat → List Stmt → List α}
    (h : l.Makes list) (known : κ) (index : Nat) (body : List Stmt) :
    list known index body = (Stmt.occurrencesFrom index body).flatMap (l.ofOccurrence known) := by
  induction body using Stmt.bodyInduction generalizing known index with
  | step body ih =>
    have hstmt : ∀ s ∈ body, ∀ index, (s.occurrences index).flatMap (l.ofOccurrence known)
        = l.own known index s ++ s.parts.flatMap fun p =>
            (list (l.enter known p.1) 0 p.2).map (l.below ⟨index, p.1⟩) := by
      intro s hs index
      have hself : l.ofOccurrence known ⟨[], index, s⟩ = l.own known index s := by
        simp [ofOccurrence]
      rw [Stmt.occurrences_eq, flatMap_cons, hself, flatMap_assoc]
      congr 1
      refine flatMap_congr fun p hp => ?_
      rw [ih s hs p.2 (Stmt.mem_bodies_of_mem_parts hp), flatMap_map, map_flatMap]
      exact flatMap_congr fun o _ => l.ofOccurrence_below known ⟨index, p.1⟩ o
    clear ih
    induction body generalizing index with
    | nil => exact h.nil known index
    | cons s body ih =>
      obtain ⟨hs, hbody⟩ := forall_mem_cons.mp hstmt
      rw [h.cons, Stmt.occurrencesFrom, flatMap_append, hs index, ih (index + 1) hbody]

/-- What is made of the things at places is made of the places that have one. -/
theorem Occurrence.map_filterMap_eq {γ : Type} {os : List Occurrence}
    {thing? : Occurrence → Option α} {wanted : Stmt → Bool}
    (hwanted : ∀ o, (thing? o).isSome = wanted o.stmt) {f : α → γ} {g : Occurrence → γ}
    (h : ∀ o ∈ os, ∀ a, thing? o = some a → f a = g o) :
    (os.filterMap thing?).map f = (os.filter (wanted ·.stmt)).map g := by
  induction os with
  | nil => rfl
  | cons o os ih =>
    obtain ⟨ho, hos⟩ := forall_mem_cons.mp h
    have hthing := hwanted o
    cases hsome : thing? o with
    | none =>
      rw [filterMap_cons_none hsome, filter_cons_of_neg (by simp [← hthing, hsome]),
        ih hos]
    | some a =>
      rw [filterMap_cons_some hsome, filter_cons_of_pos (by simp [← hthing, hsome]),
        map_cons, map_cons, ho a hsome, ih hos]

end Surveys

end Ordo
