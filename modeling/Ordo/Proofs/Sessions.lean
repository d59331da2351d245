import Ordo.Failure

namespace Ordo

/-!
# Runs of sessions

* `Session.outcome` — the result of a session and what the outside sees of it, with equations for
  sessions in steps;
* `Session.Settles`, `Session.SettlesWith` — sessions that give a result whatever the outside
  does, or with an outside that does certain things;
* `Session.IsQuiet` — sessions that make no request to the model;
* `Session.OnlyQueries` — sessions all of whose queries have a property, whatever is answered;
* `Session.IgnoresCache` — sessions whose result and whose requests do not depend on the cache.
-/

namespace Session

variable {α β : Type} {services : Services} {log : Log} {t : Session α} {f : α → Session β}

/-- The result of a session, and what the outside has seen after it. -/
def outcome (services : Services) (t : Session α) (log : Log) : Except Failure α × Log :=
  Dialogue.run services t.run log

/-! ### One step after another -/

theorem outcome_bind_of_ok {a : α} (h : (t.outcome services log).1 = .ok a) :
    (t >>= f).outcome services log = (f a).outcome services (t.outcome services log).2 := by
  refine (Dialogue.run_bind services t.run (ExceptT.bindCont f) log).trans ?_
  rw [outcome] at h
  rw [h]
  rfl

theorem outcome_bind_of_error {e : Failure} (h : (t.outcome services log).1 = .error e) :
    (t >>= f).outcome services log = (.error e, (t.outcome services log).2) := by
  refine (Dialogue.run_bind services t.run (ExceptT.bindCont f) log).trans ?_
  rw [outcome] at h
  rw [h]
  rfl

theorem outcome_bind_eq_ok_iff {b : β} :
    ((t >>= f).outcome services log).1 = .ok b ↔ ∃ a, (t.outcome services log).1 = .ok a ∧
      ((f a).outcome services (t.outcome services log).2).1 = .ok b := by
  cases h : (t.outcome services log).1 with
  | error e =>
    rw [outcome_bind_of_error h]
    simp
  | ok a =>
    rw [outcome_bind_of_ok h]
    simp

theorem outcome_map_eq_ok_iff {g : α → β} {b : β} : ((g <$> t).outcome services log).1 = .ok b ↔
      ∃ a, (t.outcome services log).1 = .ok a ∧ g a = b := by
  rw [map_eq_pure_bind, outcome_bind_eq_ok_iff]
  refine exists_congr fun a => and_congr_right fun _ => ?_
  exact ⟨Except.ok.inj, congrArg Except.ok⟩

/-! ### The steps -/

@[simp] theorem outcome_pure (a : α) : (pure a : Session α).outcome services log = (.ok a, log) :=
  rfl

@[simp] theorem outcome_ofExcept (r : Except Failure α) :
    (ofExcept r).outcome services log = (r, log) := rfl

theorem outcome_ofExcept_bind {r : Except Failure α} {a : α} (h : r = .ok a) :
    (ofExcept r >>= f).outcome services log = (f a).outcome services log :=
  outcome_bind_of_ok h

@[simp] theorem outcome_ofData (r : Except AccessError α) :
    (ofData r).outcome services log = (r.mapError .access, log) := rfl

@[simp] theorem outcome_attempt (t : Session α) : (attempt t).outcome services log
    = (.ok (t.outcome services log).1, (t.outcome services log).2) := by
  let next : Except Failure α → Dialogue (Except Failure (Except Failure α)) := pure ∘ .ok
  exact Dialogue.run_bind services t.run next log

@[simp] theorem outcome_lookup (q : Query) (model : Option (Nat → Except String Reply))
    (answers : Nat → Except String Value) :
    (lookup q).outcome ⟨model, some answers⟩ log
      = ((answers log.queries.length).mapError .service,
          { log with queries := log.queries ++ [q] }) := rfl

/-! ### Sessions that give a result -/

/-- A session gives a result whatever the outside does. -/
def Settles (t : Session α) : Prop :=
  ∀ services log, ∃ a, (t.outcome services log).1 = .ok a

theorem settles_pure (a : α) : Settles (pure a) := fun _ _ => ⟨a, rfl⟩

theorem settles_attempt (t : Session α) : Settles (attempt t) :=
  fun _ _ => ⟨_, by rw [outcome_attempt]⟩

theorem settles_sayLine (s : String) : Settles (sayLine s) := fun _ _ => ⟨(), rfl⟩

theorem settles_ofData {r : Except AccessError α} {a : α} (h : r = .ok a) :
    Settles (ofData r) := fun _ _ => ⟨a, by rw [h]; rfl⟩

theorem Settles.bind (ht : Settles t) (hf : ∀ a, Settles (f a)) : Settles (t >>= f) := by
  intro services log
  obtain ⟨a, ha⟩ := ht services log
  rw [outcome_bind_of_ok ha]
  exact hf a services _

theorem Settles.map (ht : Settles t) (g : α → β) : Settles (g <$> t) := by
  rw [map_eq_pure_bind]
  exact ht.bind fun _ => settles_pure _

/-- A session gives a result with this outside, whatever it has seen before. -/
def SettlesWith (services : Services) (t : Session α) : Prop :=
  ∀ log, ∃ a, (t.outcome services log).1 = .ok a

theorem SettlesWith.bind (ht : SettlesWith services t) (hf : ∀ a, SettlesWith services (f a)) :
    SettlesWith services (t >>= f) := by
  intro log
  obtain ⟨a, ha⟩ := ht log
  rw [outcome_bind_of_ok ha]
  exact hf a _

/-! ### Sessions without requests -/

/-- A session makes no request to the model. -/
def IsQuiet (t : Session α) : Prop :=
  ∀ services log, (t.outcome services log).2.requests = log.requests

theorem isQuiet_pure (a : α) : IsQuiet (pure a) := fun _ _ => rfl

theorem isQuiet_ofData (r : Except AccessError α) : IsQuiet (ofData r) := fun _ _ => rfl

theorem isQuiet_sayLine (s : String) : IsQuiet (sayLine s) := fun _ _ => rfl

theorem isQuiet_lookup (q : Query) : IsQuiet (lookup q) := by
  rintro ⟨model, _ | answers⟩ log <;> rfl

theorem IsQuiet.attempt (ht : IsQuiet t) : IsQuiet (attempt t) := by
  intro services log
  rw [outcome_attempt]
  exact ht services log

theorem IsQuiet.bind (ht : IsQuiet t) (hf : ∀ a, IsQuiet (f a)) : IsQuiet (t >>= f) := by
  intro services log
  cases h : (t.outcome services log).1 with
  | error e =>
    rw [outcome_bind_of_error h]
    exact ht services log
  | ok a =>
    rw [outcome_bind_of_ok h, hf a services]
    exact ht services log

theorem IsQuiet.map (ht : IsQuiet t) (g : α → β) : IsQuiet (g <$> t) := by
  rw [map_eq_pure_bind]
  exact ht.bind fun _ => isQuiet_pure _

end Session

/-! ### Sessions by their queries -/

namespace Dialogue

variable {α β : Type} {P : Query → Prop}

/-- Every query that is made has a property, whatever the outside answers. -/
def AllQueries (P : Query → Prop) : Dialogue α → Prop
  | done _ => True
  | connect next => ∀ b, (next b).AllQueries P
  | ask _ next => ∀ reply, (next reply).AllQueries P
  | query q next => P q ∧ ∀ answer, (next answer).AllQueries P
  | print _ next => next.AllQueries P

theorem AllQueries.bind {d : Dialogue α} {f : α → Dialogue β} (hd : d.AllQueries P)
    (hf : ∀ a, (f a).AllQueries P) : (d.bind f).AllQueries P := by
  induction d with
  | done a => exact hf a
  | connect next ih => exact fun b => ih b (hd b)
  | ask r next ih => exact fun reply => ih reply (hd reply)
  | query q next ih => exact ⟨hd.1, fun answer => ih answer (hd.2 answer)⟩
  | print s next ih => exact ih hd

/-- Without queries the cache makes no difference. -/
theorem run_of_allQueries {d : Dialogue α} (hd : d.AllQueries fun _ => False)
    {model : Option (Nat → Except String Reply)} {cache cache' : Option (Nat → Except String Value)}
    {log log' : Log} (h : log.requests = log'.requests) :
    (d.run ⟨model, cache⟩ log).1 = (d.run ⟨model, cache'⟩ log').1 ∧
      (d.run ⟨model, cache⟩ log).2.requests = (d.run ⟨model, cache'⟩ log').2.requests := by
  induction d generalizing log log' with
  | done a => exact ⟨rfl, h⟩
  | connect next ih => exact ih _ (hd _) h
  | ask r next ih =>
    simp only [run, h]
    exact ih _ (hd _) rfl
  | query q next ih => exact hd.1.elim
  | print s next ih => exact ih hd h

end Dialogue

namespace Session

variable {α β : Type} {t : Session α} {f : α → Session β} {P : Query → Prop}

/-- Every query that a session makes has a property, whatever the outside answers. -/
def OnlyQueries (P : Query → Prop) (t : Session α) : Prop := t.run.AllQueries P

theorem onlyQueries_ofExcept (r : Except Failure α) : OnlyQueries P (ofExcept r) := trivial

theorem onlyQueries_pure (a : α) : OnlyQueries P (pure a : Session α) := trivial

theorem onlyQueries_sayLine (s : String) : OnlyQueries P (sayLine s) := trivial

theorem onlyQueries_reply (r : Request) : OnlyQueries P (reply r) := fun _ => trivial

theorem onlyQueries_requireKey (missing : Failure) : OnlyQueries P (requireKey missing) := by
  intro b
  cases b <;> exact trivial

theorem onlyQueries_lookup {q : Query} (h : P q) : OnlyQueries P (lookup q) :=
  ⟨h, fun _ => trivial⟩

theorem OnlyQueries.bind (ht : OnlyQueries P t) (hf : ∀ a, OnlyQueries P (f a)) :
    OnlyQueries P (t >>= f) := by
  refine Dialogue.AllQueries.bind ht fun r => ?_
  cases r with
  | error e => exact trivial
  | ok a => exact hf a

theorem OnlyQueries.map (ht : OnlyQueries P t) (g : α → β) : OnlyQueries P (g <$> t) := by
  rw [map_eq_pure_bind]
  exact ht.bind fun _ => onlyQueries_pure _

theorem OnlyQueries.attempt (ht : OnlyQueries P t) : OnlyQueries P (attempt t) :=
  Dialogue.AllQueries.bind ht fun _ => trivial

/-! ### Sessions without a cache -/

/-- The result of a session and its requests are the same with any two caches. -/
def IgnoresCache (t : Session α) : Prop :=
  ∀ model cache cache' (log log' : Log), log.requests = log'.requests →
    (t.outcome ⟨model, cache⟩ log).1 = (t.outcome ⟨model, cache'⟩ log').1 ∧
      (t.outcome ⟨model, cache⟩ log).2.requests = (t.outcome ⟨model, cache'⟩ log').2.requests

theorem ignoresCache_pure (a : α) : IgnoresCache (pure a) := fun _ _ _ _ _ h => ⟨rfl, h⟩

theorem OnlyQueries.ignoresCache (ht : OnlyQueries (fun _ => False) t) : IgnoresCache t :=
  fun _ _ _ _ _ h => Dialogue.run_of_allQueries ht h

/-- A step that says nothing to the model and always succeeds may well use the cache. -/
theorem IsQuiet.ignoresCache {t : Session Unit} (hquiet : IsQuiet t) (hsettles : Settles t) :
    IgnoresCache t := by
  intro model cache cache' log log' h
  obtain ⟨⟨⟩, ha⟩ := hsettles ⟨model, cache⟩ log
  obtain ⟨⟨⟩, ha'⟩ := hsettles ⟨model, cache'⟩ log'
  rw [ha, ha', hquiet, hquiet]
  exact ⟨rfl, h⟩

theorem IgnoresCache.bind (ht : IgnoresCache t) (hf : ∀ a, IgnoresCache (f a)) :
    IgnoresCache (t >>= f) := by
  intro model cache cache' log log' h
  obtain ⟨hresult, hrequests⟩ := ht model cache cache' log log' h
  cases ha : (t.outcome ⟨model, cache⟩ log).1 with
  | error e =>
    rw [outcome_bind_of_error ha, outcome_bind_of_error (hresult.symm.trans ha)]
    exact ⟨rfl, hrequests⟩
  | ok a =>
    rw [outcome_bind_of_ok ha, outcome_bind_of_ok (hresult.symm.trans ha)]
    exact hf a model cache cache' _ _ hrequests

theorem IgnoresCache.map (ht : IgnoresCache t) (g : α → β) : IgnoresCache (g <$> t) := by
  rw [map_eq_pure_bind]
  exact ht.bind fun _ => ignoresCache_pure _

end Session

end Ordo
