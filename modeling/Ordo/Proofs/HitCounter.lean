import Mathlib.Logic.Function.Basic
import Ordo.Proofs.Assessments

namespace Ordo

/-!
# Requests at the same time

A row of the cache counts how often it was asked for.  A request reads the row and then writes
the count it has read plus one; between the two, another request may do the same.

* `Database`, `Database.Keeps` — a database, and what a row in it is;
* `Joint`, `Interleaves` — two dialogues with one database, in any order of their steps;
* `Phase`, `Tally` — how far the requests are, and what a step does to the count;
* `Interleaves.tracks` — the tally follows every run;
* `hits_counted_iff` — which orders of steps lose a request.
-/

open Session List

/-! ### Two dialogues with one database -/

/-- A database: its answer to a query, and what it holds after it. -/
structure Database (σ : Type) where
  answer : Query → σ → Except String Value
  after : Query → σ → σ

/-- One of two. -/
inductive Party
  | first | second
  deriving DecidableEq, Repr

/-- The other of two. -/
def Party.other : Party → Party
  | first => second
  | second => first

theorem Party.eq_or_eq_other (p q : Party) : q = p ∨ q = p.other := by
  cases p <;> cases q <;> simp [other]

theorem Party.other_ne (p : Party) : p.other ≠ p := by
  cases p <;> simp [other]

@[simp] theorem Party.other_other (p : Party) : p.other.other = p := by
  cases p <;> rfl

theorem Party.cons_self_ne_cons_other {p q : Party} {ps qs : List Party} :
    p :: p :: ps ≠ q :: q.other :: qs := by
  intro h
  obtain ⟨rfl, htail⟩ := List.cons.inj h
  exact p.other_ne (List.cons.inj htail).1.symm

/-- A step of a dialogue that is no query, with any answer of the outside. -/
inductive Dialogue.Talks {α : Type} : Dialogue α → Dialogue α → Prop
  | connect (next : Bool → Dialogue α) (b : Bool) : Talks (.connect next) (next b)
  | ask (request : Request) (next : Except String Reply → Dialogue α)
      (reply : Except String Reply) : Talks (.ask request next) (next reply)
  | print (text : String) (next : Dialogue α) : Talks (.print text next) next

variable {α β : Type}

theorem Dialogue.AllQueries.talks {P : Query → Prop} {d d' : Dialogue α}
    (hd : d.AllQueries P) (h : d.Talks d') : d'.AllQueries P := by
  cases h with
  | connect next b => exact hd b
  | ask request next reply => exact hd reply
  | print text next => exact hd

/-- What a database holds, and what is left of two dialogues. -/
structure Joint (σ α : Type) where
  state : σ
  rest : Party → Dialogue α

/-- The dialogues take steps in any order.  The list says whose the queries were. -/
inductive Interleaves {σ α : Type} (D : Database σ) : Joint σ α → List Party → Joint σ α → Prop
  | stop (c : Joint σ α) : Interleaves D c [] c
  | talk {c c' : Joint σ α} {p : Party} {d : Dialogue α} {steps : List Party} :
      (c.rest p).Talks d →
      Interleaves D ⟨c.state, Function.update c.rest p d⟩ steps c' → Interleaves D c steps c'
  | query {c c' : Joint σ α} {p : Party} {q : Query} {next : Except String Value → Dialogue α}
      {steps : List Party} : c.rest p = .query q next →
      Interleaves D ⟨D.after q c.state, Function.update c.rest p (next (D.answer q c.state))⟩
        steps c' → Interleaves D c (p :: steps) c'

/-! ### The row -/

/-- A database has a row with a key and an identifier: it is found by the key and changed by the
    identifier, column by column.  Rows that are added are other rows. -/
structure Database.Keeps {σ : Type} (D : Database σ) (key : String) (id : Value)
    (row : σ → List (String × Value)) : Prop where
  finds : ∀ s, D.answer (.find key) s = .ok (.list [.dict (row s)])
  find_row : ∀ s k, row (D.after (.find k) s) = row s
  all_row : ∀ s, row (D.after .all s) = row s
  updates : ∀ s columns, ∃ v, D.answer (.update id columns) s = .ok v
  update_row : ∀ s columns name, (row (D.after (.update id columns) s)).lookup name
    = (columns.lookup name).or ((row s).lookup name)
  insert_row : ∀ s columns, row (D.after (.insert columns) s) = row s

/-- Queries that leave the count and the identifier of a row. -/
def Query.LeavesCount (id : Value) : Query → Prop
  | find _ | all | insert _ => True
  | update i columns =>
      i = id ∧ columns.lookup "id" = none ∧ columns.lookup "times_requested" = none

section Row

variable {σ : Type} {D : Database σ} {key : String} {id : Value} {row : σ → List (String × Value)}

/-- What is known of a row: its identifier and its count. -/
def Counts (id : Value) (columns : List (String × Value)) (count : Int) : Prop :=
  columns.lookup "id" = some id ∧ columns.lookup "times_requested" = some (.int count)

variable {count : Int}

theorem Database.Keeps.counts_after (hD : D.Keeps key id row) {s : σ} {q : Query}
    (hq : q.LeavesCount id) (h : Counts id (row s) count) :
    Counts id (row (D.after q s)) count := by
  cases q with
  | find k => rwa [hD.find_row]
  | all => rwa [hD.all_row]
  | insert columns => rwa [hD.insert_row]
  | update i columns =>
    obtain ⟨rfl, hid, hcount⟩ := hq
    simpa only [Counts, hD.update_row, hid, hcount, Option.none_or] using h

theorem Database.Keeps.counts_after_update (hD : D.Keeps key id row) {s : σ}
    (h : Counts id (row s) count) (written : Int) :
    Counts id (row (D.after (.update id [("times_requested", .int written)]) s)) written := by
  simp [Counts, hD.update_row, lookup_cons, h.1]

end Row

/-! ### What a request does -/

theorem Session.ofData_bind {r : Except AccessError α} {a : α} (h : r = .ok a)
    (f : α → Session β) : ofData r >>= f = f a := by
  rw [h]
  rfl

/-- A session that starts with a query, within one that goes on with its result or failure. -/
theorem Session.run_attempt_lookup_bind (q : Query) (f : Value → Session α)
    (finish : Except Failure α → Session β) :
    ∃ next, (attempt (lookup q >>= f) >>= finish).run = .query q next
      ∧ ∀ v, next (.ok v) = (attempt (f v) >>= finish).run :=
  ⟨_, rfl, fun _ => rfl⟩

namespace Assessment

variable {id : Value}

variable {row : List (String × Value)}

theorem onlyQueries_keptDrawing (hid : row.lookup "id" = some id) :
    OnlyQueries (Query.LeavesCount id) (keptDrawing (.dict row)) := by
  have hentry : (Value.dict row).entry "id" = .ok id := by simp [Value.entry, hid]
  refine (onlyQueries_ofExcept _).bind fun kept => ?_
  split
  · refine (onlyQueries_ofExcept _).bind fun text =>
      (Diagram.onlyQueries_orFallback _).bind fun drawing => ?_
    have hupdate : Query.LeavesCount id (.update id [("mermaid_diagram", .str drawing)]) :=
      ⟨rfl, rfl, rfl⟩
    rw [ofData_bind hentry]
    refine (onlyQueries_lookup hupdate).attempt.bind fun r => ?_
    cases r with
    | ok answer => exact onlyQueries_pure _
    | error f => exact (onlyQueries_sayLine _).bind fun _ => onlyQueries_pure _
  · exact onlyQueries_pure _

theorem onlyQueries_fresh (context : Cache.Context) :
    OnlyQueries (Query.LeavesCount id) (fresh context) := by
  have hkeep : ∀ x resolution drawing,
      OnlyQueries (Query.LeavesCount id) (keep context x resolution drawing) := by
    intro x resolution drawing
    refine OnlyQueries.bind (OnlyQueries.attempt ?_) fun r => ?_
    · exact (onlyQueries_ofExcept _).bind fun _ => onlyQueries_lookup trivial
    · cases r with
      | ok r => exact onlyQueries_pure _
      | error f => exact onlyQueries_sayLine _
  have hexamine : ∀ program subroutine type,
      OnlyQueries (Query.LeavesCount id) (examine context program subroutine type) := by
    intro program subroutine type
    refine (onlyQueries_ofExcept _).bind fun name => ?_
    refine (Study.onlyQueries_conduct _ _ _).bind fun study => ?_
    cases study with
    | extracted x =>
      exact (onlyQueries_resolved x).bind fun resolution =>
        (Diagram.onlyQueries_orFallback _).bind fun drawing =>
        (hkeep _ _ _).bind fun _ => onlyQueries_pure _
    | failed e type =>
      exact (onlyQueries_pure _).bind fun resolution =>
        (Diagram.onlyQueries_orFallback _).bind fun drawing => onlyQueries_pure _
  refine (onlyQueries_ofExcept _).bind fun tree => (onlyQueries_ofExcept _).bind fun program =>
    (onlyQueries_ofExcept _).bind fun classification => ?_
  dsimp only
  split
  · exact ((hexamine _ _ _).map some).bind fun _ => onlyQueries_pure _
  · exact (onlyQueries_pure _).bind fun _ => onlyQueries_pure _

/-- A row is rebuilt after its count has been raised. -/
theorem ofRow_eq {count : Int} (h : Counts id row count) : ∃ rebuild : Value → Session Assessment,
      ofRow (.dict row)
        = lookup (.update id [("times_requested", .int (count + 1))]) >>= rebuild
      ∧ ∀ v, OnlyQueries (Query.LeavesCount id) (rebuild v) := by
  have hid : (Value.dict row).entry "id" = .ok id := by simp [Value.entry, h.1]
  have hcount : (Value.dict row).entry "times_requested" = .ok (.int count) := by
    simp [Value.entry, h.2]
  have hmore : (Value.int count).successor = .ok (.int (count + 1)) := rfl
  unfold ofRow
  rw [ofData_bind hcount, ofData_bind hmore, ofData_bind hid]
  refine ⟨_, rfl, fun v => ?_⟩
  exact (onlyQueries_keptDrawing h.1).bind fun _ => (onlyQueries_ofExcept _).bind fun _ =>
    (onlyQueries_ofExcept _).bind fun _ => (onlyQueries_ofExcept _).bind fun _ =>
    onlyQueries_pure _

end Assessment

open Assessment

/-- **A request reads the row, then writes its count.**  After that it leaves the count alone. -/
theorem assess_run (text : String) (description : Option String) :
    ∃ next, (assess text description).run = .query (.find (Cache.key text)) next
      ∧ ∀ {id : Value} {row : List (String × Value)} {count : Int}, Counts id row count →
        ∃ after, next (.ok (.list [.dict row]))
            = .query (.update id [("times_requested", .int (count + 1))]) after
          ∧ ∀ v, (after (.ok v)).AllQueries (Query.LeavesCount id) := by
  -- what comes after the row is rebuilt, or could not be
  have hfinish : ∃ finish : Except Failure (Option Assessment) → Session Assessment,
      assess text description = attempt (kept text) >>= finish
      ∧ ∀ id r, OnlyQueries (Query.LeavesCount id) (finish r) := by
    refine ⟨_, bind_assoc _ _ _, fun id r => OnlyQueries.bind ?_ fun a => ?_⟩
    · cases r with
      | ok a => exact onlyQueries_pure _
      | error f => exact (onlyQueries_sayLine _).bind fun _ => onlyQueries_pure _
    · cases a with
      | some a => exact onlyQueries_pure _
      | none => exact onlyQueries_fresh _
  obtain ⟨finish, hassess, hfinish⟩ := hfinish
  obtain ⟨next, hrun, hnext⟩ := run_attempt_lookup_bind (.find (Cache.key text)) _ finish
  refine ⟨next, (congrArg ExceptT.run hassess).trans hrun, fun {id row count} hrow => ?_⟩
  obtain ⟨rebuild, hrow, hrebuild⟩ := ofRow_eq hrow
  have hfound : some <$> ofRow (.dict row)
      = lookup (.update id [("times_requested", .int (count + 1))])
        >>= fun v => some <$> rebuild v := by
    rw [hrow, map_bind]
  obtain ⟨after, hupdate, hafter⟩ := run_attempt_lookup_bind _ (fun v => some <$> rebuild v) finish
  refine ⟨after, ?_, fun v => ?_⟩
  · rw [hnext, ← hupdate, ← hfound]
    rfl
  · rw [hafter]
    exact ((hrebuild v).map some).attempt.bind (hfinish id)

/-! ### The tally -/

/-- How far a request is with the count. -/
inductive Phase
  | toRead
  /-- The count has been read, and will be written plus one. -/
  | toWrite (read : Int)
  | past
  deriving DecidableEq, Repr

/-- The count in the row, and how far the requests are with it. -/
structure Tally where
  count : Int
  phase : Party → Phase

namespace Tally

/-- Nothing has been done yet. -/
def start (count : Int) : Tally := ⟨count, fun _ => .toRead⟩

/-- What the next query of a party does. -/
def step (t : Tally) (p : Party) : Tally :=
  match t.phase p with
  | .toRead => ⟨t.count, Function.update t.phase p (.toWrite t.count)⟩
  | .toWrite read => ⟨read + 1, Function.update t.phase p .past⟩
  | .past => t

/-- Both requests are through with the count. -/
def IsOver (t : Tally) : Prop := ∀ p, t.phase p = .past

variable {t : Tally} {p : Party} {read : Int} {steps : List Party}

theorem step_toRead (h : t.phase p = .toRead) :
    (t.step p).count = t.count ∧ (t.step p).phase p = .toWrite t.count := by
  simp [step, h]

theorem step_toWrite (h : t.phase p = .toWrite read) :
    (t.step p).count = read + 1 ∧ (t.step p).phase p = .past := by
  simp [step, h]

theorem step_past (h : t.phase p = .past) : t.step p = t := by
  simp [step, h]

/-- A step of one request leaves the other where it is. -/
theorem phase_step_other (t : Tally) (p : Party) : (t.step p).phase p.other = t.phase p.other := by
  unfold step
  split
  · exact Function.update_of_ne p.other_ne _ _
  · exact Function.update_of_ne p.other_ne _ _
  · rfl

theorem foldl_of_isOver (h : t.IsOver) : steps.foldl step t = t := by
  induction steps with
  | nil => rfl
  | cons q steps ih => rw [foldl_cons, step_past (h q), ih]

/-- One request has to write: its write decides. -/
theorem count_of_toWrite (hp : t.phase p = .toWrite read) (hother : t.phase p.other = .past)
    (hover : (steps.foldl step t).IsOver) : (steps.foldl step t).count = read + 1 := by
  induction steps with
  | nil => exact absurd (hover p) (by simp [hp])
  | cons q steps ih =>
    rw [foldl_cons] at hover ⊢
    rcases p.eq_or_eq_other q with rfl | rfl
    · obtain ⟨hcount, hphase⟩ := step_toWrite hp
      have hdone : (t.step q).IsOver := by
        intro r
        rcases q.eq_or_eq_other r with rfl | rfl
        · exact hphase
        · rw [phase_step_other, hother]
      rw [foldl_of_isOver hdone, hcount]
    · rw [step_past hother] at hover ⊢
      exact ih hover

/-- One request has to read and write: it adds one to what is there. -/
theorem count_of_toRead (hp : t.phase p = .toRead) (hother : t.phase p.other = .past)
    (hover : (steps.foldl step t).IsOver) : (steps.foldl step t).count = t.count + 1 := by
  induction steps with
  | nil => exact absurd (hover p) (by simp [hp])
  | cons q steps ih =>
    rw [foldl_cons] at hover ⊢
    rcases p.eq_or_eq_other q with rfl | rfl
    · exact count_of_toWrite (step_toRead hp).2 (by rw [phase_step_other, hother]) hover
    · rw [step_past hother] at hover ⊢
      exact ih hover

/-- Both requests have read the same: whoever writes last, only one is counted. -/
theorem count_of_both_toWrite (h : ∀ p, t.phase p = .toWrite read)
    (hover : (steps.foldl step t).IsOver) : (steps.foldl step t).count = read + 1 := by
  cases steps with
  | nil => exact absurd (hover .first) (by simp [h])
  | cons q steps =>
    rw [foldl_cons] at hover ⊢
    refine count_of_toWrite (p := q.other) ?_ ?_ hover
    · rw [phase_step_other, h]
    · rw [q.other_other]
      exact (step_toWrite (h q)).2

/-- **The order of the first two steps decides** what is counted. -/
theorem count_of_start {count : Int} (hover : (steps.foldl step (start count)).IsOver) :
    ∃ p rest, (steps = p :: p :: rest ∧ (steps.foldl step (start count)).count = count + 2) ∨
      (steps = p :: p.other :: rest ∧ (steps.foldl step (start count)).count = count + 1) := by
  cases steps with
  | nil => exact absurd (hover .first) (by simp [start])
  | cons p steps =>
    -- the first step is a read
    obtain ⟨hcount, htoWrite⟩ := step_toRead (t := start count) (p := p) rfl
    have htoRead : ((start count).step p).phase p.other = .toRead := phase_step_other _ p
    cases steps with
    | nil => exact absurd (hover p.other) (by simp [htoRead])
    | cons q rest =>
      rw [foldl_cons, foldl_cons] at hover ⊢
      rcases p.eq_or_eq_other q with rfl | rfl
      · obtain ⟨hwritten, hpast⟩ := step_toWrite htoWrite
        have hfinal := count_of_toRead (p := q.other) (by rw [phase_step_other, htoRead])
          (by rw [q.other_other, hpast]) hover
        refine ⟨q, rest, .inl ⟨rfl, ?_⟩⟩
        rw [hfinal, hwritten, Int.add_assoc]
        rfl
      · obtain ⟨-, hpending⟩ := step_toRead htoRead
        refine ⟨p, rest, .inr ⟨rfl, count_of_both_toWrite (fun r => ?_) hover⟩⟩
        rcases p.other.eq_or_eq_other r with rfl | rfl
        · rw [hpending, hcount]
          rfl
        · rw [phase_step_other, p.other_other, htoWrite]
          rfl

end Tally

/-! ### The tally follows every run -/

section Tracks

variable {σ : Type} {D : Database σ} {key : String} {id : Value} {row : σ → List (String × Value)}

/-- What is left of a request in each phase. -/
def Phase.Suits (key : String) (id : Value) :
    Phase → Dialogue (Except Failure Assessment) → Prop
  | toRead, d => ∃ text description, Cache.key text = key ∧ d = (assess text description).run
  | toWrite read, d => ∃ after, d = .query (.update id [("times_requested", .int (read + 1))]) after
      ∧ ∀ v, (after (.ok v)).AllQueries (Query.LeavesCount id)
  | past, d => d.AllQueries (Query.LeavesCount id)

/-- A tally says what the row counts and how far the requests are. -/
structure Tracks (key : String) (id : Value) (row : σ → List (String × Value))
    (c : Joint σ (Except Failure Assessment)) (t : Tally) : Prop where
  counts : Counts id (row c.state) t.count
  suits : ∀ p, (t.phase p).Suits key id (c.rest p)

variable {c c' : Joint σ (Except Failure Assessment)} {t : Tally} {p : Party}

/-- Only requests that are through with the count do anything but query. -/
theorem Tracks.talk {d : Dialogue (Except Failure Assessment)} (h : Tracks key id row c t)
    (hd : (c.rest p).Talks d) : Tracks key id row ⟨c.state, Function.update c.rest p d⟩ t := by
  refine ⟨h.counts, fun q => ?_⟩
  rcases p.eq_or_eq_other q with rfl | rfl
  · show (t.phase q).Suits key id (Function.update c.rest q d q)
    rw [Function.update_self]
    have hsuits := h.suits q
    cases hphase : t.phase q with
    | toRead =>
      rw [hphase] at hsuits
      obtain ⟨text, description, -, hrest⟩ := hsuits
      obtain ⟨next, hrun, -⟩ := assess_run text description
      rw [hrest, hrun] at hd
      cases hd
    | toWrite read =>
      rw [hphase] at hsuits
      obtain ⟨after, hrest, -⟩ := hsuits
      rw [hrest] at hd
      cases hd
    | past =>
      rw [hphase] at hsuits
      exact hsuits.talks hd
  · show (t.phase p.other).Suits key id (Function.update c.rest p d p.other)
    rw [Function.update_of_ne p.other_ne]
    exact h.suits _

/-- **A query does to the row what the tally says.** -/
theorem Tracks.query {q : Query} {next : Except String Value → Dialogue (Except Failure Assessment)}
    (hD : D.Keeps key id row) (h : Tracks key id row c t) (hq : c.rest p = .query q next) :
    Tracks key id row
      ⟨D.after q c.state, Function.update c.rest p (next (D.answer q c.state))⟩ (t.step p) := by
  have hsuits := h.suits p
  have hcounts := h.counts
  -- the other request stays where it is
  have hboth : ∀ {d : Dialogue (Except Failure Assessment)},
      ((t.step p).phase p).Suits key id d →
        ∀ r, ((t.step p).phase r).Suits key id (Function.update c.rest p d r) := by
    intro d hd r
    rcases p.eq_or_eq_other r with rfl | rfl
    · rwa [Function.update_self]
    · rw [Tally.phase_step_other, Function.update_of_ne p.other_ne]
      exact h.suits p.other
  rw [hq] at hsuits
  cases hphase : t.phase p with
  | toRead =>
    rw [hphase] at hsuits
    obtain ⟨text, description, rfl, hrest⟩ := hsuits
    obtain ⟨next', hrun, hnext⟩ := assess_run text description
    rw [hrun] at hrest
    obtain ⟨rfl, rfl⟩ := Dialogue.query.inj hrest
    obtain ⟨after, hupdate, hafter⟩ := hnext hcounts
    obtain ⟨hcount, htoWrite⟩ := Tally.step_toRead hphase
    refine ⟨?_, hboth ?_⟩
    · rw [hcount]
      exact hD.counts_after trivial hcounts
    · rw [htoWrite, hD.finds]
      exact ⟨after, hupdate, hafter⟩
  | toWrite read =>
    rw [hphase] at hsuits
    obtain ⟨after, hrest, hafter⟩ := hsuits
    obtain ⟨rfl, rfl⟩ := Dialogue.query.inj hrest
    obtain ⟨v, hv⟩ := hD.updates c.state [("times_requested", .int (read + 1))]
    obtain ⟨hcount, hpast⟩ := Tally.step_toWrite hphase
    refine ⟨?_, hboth ?_⟩
    · rw [hcount]
      exact hD.counts_after_update hcounts _
    · rw [hpast, hv]
      exact hafter v
  | past =>
    rw [hphase] at hsuits
    obtain ⟨hleaves, hnext⟩ := hsuits
    have hsame := Tally.step_past hphase
    refine ⟨?_, hboth ?_⟩
    · rw [hsame]
      exact hD.counts_after hleaves hcounts
    · rw [hsame, hphase]
      exact hnext _

/-- The tally follows a run, query by query. -/
theorem Interleaves.tracks {steps : List Party} (hD : D.Keeps key id row)
    (hrun : Interleaves D c steps c') (h : Tracks key id row c t) :
    Tracks key id row c' (steps.foldl Tally.step t) := by
  induction hrun generalizing t with
  | stop c => exact h
  | talk hd hrun ih => exact ih (h.talk hd)
  | query hq hrun ih => exact ih (h.query hD hq)

/-- A request that has ended is through with the count. -/
theorem Phase.eq_past_of_suits_done {phase : Phase} {r : Except Failure Assessment}
    (h : phase.Suits key id (.done r)) : phase = .past := by
  cases phase with
  | toRead =>
    obtain ⟨text, description, -, hrun⟩ := h
    obtain ⟨next, hquery, -⟩ := assess_run text description
    rw [hquery] at hrun
    cases hrun
  | toWrite read =>
    obtain ⟨after, hrun, -⟩ := h
    cases hrun
  | past => rfl

end Tracks

/-! ### Lost requests -/

/-- **A request is lost unless one reads after the other has written.**  Two requests find the
    same row, and their steps come in any order.  In the end the row counts two more if the
    request that reads first also makes the second query, and one more if both read before
    either writes. -/
theorem hits_counted_iff {σ : Type} {D : Database σ} {key : String} {id : Value}
    {row : σ → List (String × Value)} (hD : D.Keeps key id row) {s s' : σ} {count : Int}
    (hcount : Counts id (row s) count) (text : Party → String)
    (description : Party → Option String) (hkey : ∀ p, Cache.key (text p) = key)
    {steps : List Party} {result : Party → Except Failure Assessment}
    (hrun : Interleaves D ⟨s, fun p => (assess (text p) (description p)).run⟩ steps
      ⟨s', fun p => .done (result p)⟩) :
    ((row s').lookup "times_requested" = some (.int (count + 2)) ↔
        ∃ p rest, steps = p :: p :: rest)
    ∧ ((row s').lookup "times_requested" = some (.int (count + 1)) ↔
        ∃ p rest, steps = p :: p.other :: rest) := by
  have hstart : Tracks key id row ⟨s, fun p => (assess (text p) (description p)).run⟩
      (Tally.start count) := ⟨hcount, fun p => ⟨text p, description p, hkey p, rfl⟩⟩
  have hend := hrun.tracks hD hstart
  have hover : (steps.foldl Tally.step (Tally.start count)).IsOver :=
    fun p => Phase.eq_past_of_suits_done (hend.suits p)
  have hfinal := hend.counts.2
  obtain ⟨p, rest, ⟨rfl, htwo⟩ | ⟨rfl, hone⟩⟩ := Tally.count_of_start hover
  · rw [htwo] at hfinal
    refine ⟨⟨fun _ => ⟨p, rest, rfl⟩, fun _ => hfinal⟩, fun hcounted => ?_, ?_⟩
    · rw [hfinal] at hcounted
      simp at hcounted
    · rintro ⟨q, rest', hsteps⟩
      exact (Party.cons_self_ne_cons_other hsteps).elim
  · rw [hone] at hfinal
    refine ⟨⟨fun hcounted => ?_, ?_⟩, ⟨fun _ => ⟨p, rest, rfl⟩, fun _ => hfinal⟩⟩
    · rw [hfinal] at hcounted
      simp at hcounted
    · rintro ⟨q, rest', hsteps⟩
      exact (Party.cons_self_ne_cons_other hsteps.symm).elim

/-- A database with one row. -/
def Database.ofRow (key : String) (number : Int) : Database (List (String × Value)) where
  answer
    | .find k, columns => .ok (.list (if k = key then [.dict columns] else []))
    | .all, columns => .ok (.list [.dict columns])
    | .update _ _, _ => .ok (.list [])
    | .insert _, _ => .error "duplicate key"
  after
    | .update (.int i) changes, columns => if i = number then changes ++ columns else columns
    | _, columns => columns

theorem Database.keeps_ofRow (key : String) (number : Int) :
    (Database.ofRow key number).Keeps key (.int number) fun columns => columns where
  finds s := by simp [ofRow]
  find_row s k := rfl
  all_row s := rfl
  updates s columns := ⟨_, rfl⟩
  update_row s columns name := by simp [ofRow, lookup_append]
  insert_row s columns := rfl

/-- The columns of a row that has been asked for five times. -/
def sampleRow : List (String × Value) :=
  [("id", .int 1), ("times_requested", .int 5), ("mermaid_diagram", .str "flowchart TD"),
   ("algorithm_type", .str "iterative"), ("has_different_cases", .bool false),
   ("unified_function", .str "n"), ("unified_explanation", .str ""), ("algorithm_name", .str "f")]

/-- A request that finds the row makes two queries. -/
theorem assess_sampleRow :
    ∃ next after a, (assess "begin end" none).run = .query (.find (Cache.key "begin end")) next
      ∧ next (.ok (.list [.dict sampleRow]))
          = .query (.update (.int 1) [("times_requested", .int 6)]) after
      ∧ after (.ok (.list [])) = .done a :=
  ⟨_, _, _, rfl, rfl, rfl⟩

/-- Both requests read five, and both write six. -/
theorem hits_counted_iff_lost : ∃ (a : Except Failure Assessment) (s : List (String × Value)),
      Interleaves (Database.ofRow (Cache.key "begin end") 1)
        ⟨sampleRow, fun _ => (assess "begin end" none).run⟩
        [.first, .second, .first, .second] ⟨s, fun _ => .done a⟩
      ∧ s.lookup "times_requested" = some (.int 6) := by
  obtain ⟨next, after, a, hfind, hupdate, hdone⟩ := assess_sampleRow
  have hD := Database.keeps_ofRow (Cache.key "begin end") 1
  have hrun : Interleaves (Database.ofRow (Cache.key "begin end") 1)
      ⟨sampleRow, fun _ => (assess "begin end" none).run⟩ [.first, .second, .first, .second]
      ⟨("times_requested", .int 6) :: ("times_requested", .int 6) :: sampleRow,
        fun _ => .done a⟩ := by
    refine .query (p := .first) hfind ?_
    rw [hD.finds]
    refine .query (p := .second) hfind ?_
    rw [hD.finds]
    refine .query (p := .first) hupdate ?_
    refine .query (p := .second) hupdate ?_
    have hrest : Function.update (Function.update (Function.update (Function.update
        (fun _ => (assess "begin end" none).run) .first (next (.ok (.list [.dict sampleRow]))))
        .second (next (.ok (.list [.dict sampleRow])))) .first (after (.ok (.list []))))
        .second (after (.ok (.list []))) = fun _ : Party => .done a := by
      funext p
      cases p <;> exact hdone
    exact hrest ▸ .stop _
  have hcount : Counts (.int 1) sampleRow 5 := ⟨rfl, rfl⟩
  have hcounted := hits_counted_iff hD hcount (fun _ => "begin end") (fun _ => none)
    (fun _ => rfl) hrun
  exact ⟨a, _, hrun, hcounted.2.mpr ⟨.first, _, rfl⟩⟩

end Ordo
