import Ordo.Proofs.Runs

namespace Ordo

open Automaton Derivation

/-!
# Derivations with a hole

What surrounds a part of a derivation, and what of a run over the whole depends on the part.

* `Surroundings`, `Surroundings.fill` — a derivation without one of its parts, and with another
  one in its place;
* `Surroundings.obeys_fill`, `Surroundings.settled_fill` — when the other one may stand there;
* `Surroundings.path_fill` — the states of a run before, in and after the part;
* `Surroundings.exists_step` — the part can be read from the state before it;
* `Surroundings.lastOf_pathBefore`, `Derivation.path_eq_of_entered` — where a condition or a block
  stands, the state before it is that of the last token, and all such states read it alike.
-/

open List

/-- A derivation without one of its parts. -/
inductive Surroundings
  | hole
  | node (p : Production) (left : List Derivation) (inner : Surroundings)
      (right : List Derivation)

namespace Surroundings

/-- The derivation with a part in the hole. -/
def fill (d : Derivation) : Surroundings → Derivation
  | hole => d
  | node p left inner right => .node p (left ++ inner.fill d :: right)

/-- Surroundings with other ones in the hole. -/
def comp : Surroundings → Surroundings → Surroundings
  | hole, L => L
  | node p left inner right, L => node p left (inner.comp L) right

theorem fill_comp (K L : Surroundings) (d : Derivation) :
    (K.comp L).fill d = K.fill (L.fill d) := by
  induction K with
  | hole => rfl
  | node p left inner right ih => simp only [comp, fill, ih]

/-- The tokens before the hole. -/
def before : Surroundings → List Token
  | hole => []
  | node _ left inner _ => tokensAll left ++ inner.before

/-- The tokens after the hole. -/
def after : Surroundings → List Token
  | hole => []
  | node _ _ inner right => inner.after ++ tokensAll right

theorem tokens_fill (K : Surroundings) (d : Derivation) :
    (K.fill d).tokens = K.before ++ (d.tokens ++ K.after) := by
  induction K with
  | hole => simp [fill, before, after]
  | node p left inner right ih =>
    rw [fill, Derivation.tokens, Derivation.tokensAll_append, tokensAll, ih, before,
      after]
    simp only [append_assoc]

/-- The symbol of the whole, given that of the part. -/
def symbol (x : Symbol) : Surroundings → Symbol
  | hole => x
  | node p _ _ _ => .nonterminal p.lhs

@[simp] theorem symbol_fill (K : Surroundings) (d : Derivation) :
    (K.fill d).symbol = K.symbol d.symbol := by
  cases K <;> rfl

/-! ### What may stand in the hole -/

variable {K : Surroundings} {d e : Derivation}

variable {allowed : Production → Prop}

theorem obeys_of_fill (h : (K.fill d).Obeys allowed) : d.Obeys allowed := by
  induction K with
  | hole => exact h
  | node p left inner right ih =>
    exact ih (Derivation.obeyAll_append_iff.mp h.2.2).2.1

theorem isSound_of_fill (h : (K.fill d).IsSound) : d.IsSound := by
  refine ⟨obeys_of_fill h.obeys, fun t ht => h.lexed t ?_⟩
  rw [tokens_fill]
  exact mem_append_right _ (mem_append_left _ ht)

theorem settled_of_fill (hlegal : (K.fill d).Obeys Production.IsLegal) (h : (K.fill d).Settled) :
    d.Settled := by
  induction K with
  | hole => exact h
  | node p left inner right ih =>
    obtain ⟨hleft, hinner, -⟩ := Derivation.obeyAll_append_iff.mp hlegal.2.2
    exact ih hinner ((settledAll_append_iff hleft).mp h).2.1.1

/-- A part may be replaced by another one of the same symbol. -/
theorem obeys_fill (h : (K.fill d).Obeys allowed)
    (he : e.Obeys allowed) (hsymbol : e.symbol = d.symbol) : (K.fill e).Obeys allowed := by
  induction K with
  | hole => exact he
  | node p left inner right ih =>
    obtain ⟨hp, hrhs, hall⟩ := h
    obtain ⟨hleft, hinner, hright⟩ := Derivation.obeyAll_append_iff.mp hall
    refine ⟨hp, ?_, Derivation.obeyAll_append_iff.mpr ⟨hleft, ih hinner, hright⟩⟩
    rw [← hrhs]
    simp [hsymbol]

/-- What hangs with another part in the hole did so before, or that part hangs at its end. -/
theorem hangs_fill (h : (K.fill e).hangs = true) (hd : (K.fill d).hangs = false) :
    e.hangs = true ∧ K.after = [] := by
  induction K with
  | hole => exact ⟨h, rfl⟩
  | node p left inner right ih =>
    simp only [fill, Derivation.hangs, Bool.or_eq_true, Bool.or_eq_false_iff] at h hd
    have hlast : lastHangs (left ++ inner.fill e :: right) = true :=
      h.resolve_left (by simp [hd.1])
    rw [lastHangs_append (by simp)] at hlast
    rw [lastHangs_append (by simp)] at hd
    cases right with
    | nil =>
      have hinner := ih (by simpa [lastHangs] using hlast)
        (by simpa [lastHangs] using hd.2)
      simpa [after, tokensAll] using hinner
    | cons r right =>
      -- the part is not at the end
      have hskip (x : Derivation) :
          lastHangs (x :: r :: right) = lastHangs (r :: right) := rfl
      rw [hskip] at hlast hd
      simp [hlast] at hd

/-- What the whole starts with does not depend on a part that starts alike. -/
theorem nextKind_fill (K : Surroundings) (hd : d.tokens ≠ [])
    (hfirst : nextKind e.tokens = nextKind d.tokens) (rest : List Token) :
    nextKind ((K.fill e).tokens ++ rest) = nextKind ((K.fill d).tokens ++ rest) := by
  rw [tokens_fill, tokens_fill]
  cases K.before with
  | cons t ts => rfl
  | nil =>
    obtain ⟨t, ts, hts⟩ := exists_cons_of_ne_nil hd
    have hkind : nextKind d.tokens = some t.kind := by rw [hts]; rfl
    simp only [nil_append, append_assoc]
    rw [nextKind_append (hfirst.trans hkind), nextKind_append hkind]

/-- A settled derivation stays settled if a part that starts alike takes the place of another one,
    and does not hang before an `else`. -/
theorem settled_fill (hlegal : (K.fill d).Obeys Production.IsLegal) (h : (K.fill d).Settled)
    (he : e.Settled) (hfirst : nextKind e.tokens = nextKind d.tokens)
    (hhangs : e.hangs = true → nextKind K.after ≠ some .kwElse) : (K.fill e).Settled := by
  have hd : d.tokens ≠ [] := Derivation.tokens_ne_nil (obeys_of_fill hlegal)
  induction K with
  | hole => exact he
  | node p left inner right ih =>
    obtain ⟨hleft, hinner, hright⟩ := Derivation.obeyAll_append_iff.mp hlegal.2.2
    obtain ⟨hsettledLeft, ⟨hsettled, hnext, hsettledRight⟩, hleftHangs⟩ :=
      (settledAll_append_iff hleft).mp h
    refine (settledAll_append_iff hleft).mpr
      ⟨hsettledLeft, ⟨ih hinner hsettled ?_, ?_, hsettledRight⟩, ?_⟩
    · intro hehangs
      cases hafter : inner.after with
      | nil => simp [nextKind]
      | cons t ts =>
        have hwhole := hhangs hehangs
        rwa [after, hafter] at hwhole
    · intro hfill
      cases hfillD : (inner.fill d).hangs with
      | true => exact hnext hfillD
      | false =>
        obtain ⟨hehangs, hafter⟩ := hangs_fill hfill hfillD
        have hwhole := hhangs hehangs
        rwa [after, hafter] at hwhole
    · rw [tokensAll, nextKind_fill inner hd hfirst]
      exact hleftHangs

/-! ### The states of a run -/

/-- The state before the hole, if the whole is read from a state. -/
def stateAt (s : Nat) : Surroundings → Nat
  | hole => s
  | node _ left inner _ => inner.stateAt (stepAll s (left.map Derivation.symbol))

theorem stateAt_comp (K L : Surroundings) (s : Nat) :
    (K.comp L).stateAt s = L.stateAt (K.stateAt s) := by
  induction K generalizing s with
  | hole => rfl
  | node p left inner right ih => exact ih _

/-- The states that the tokens before the hole lead to. -/
def pathBefore (s : Nat) : Surroundings → List Nat
  | hole => []
  | node _ left inner _ =>
      pathAll s left ++ inner.pathBefore (stepAll s (left.map Derivation.symbol))

/-- The state in whose context the first token of the part is cut. -/
def cutState (K : Surroundings) : Nat := lastOf 0 (K.pathBefore 0)

/-- The states that the tokens after the hole lead to, given the symbol of the part. -/
def pathAfter (s : Nat) (x : Symbol) : Surroundings → List Nat
  | hole => []
  | node _ left inner right =>
      let s' := stepAll s (left.map Derivation.symbol)
      inner.pathAfter s' x ++ pathAll (step s' (inner.symbol x)) right

/-- **The states of a run** before, in and after a part. -/
theorem path_fill (K : Surroundings) (d : Derivation) (s : Nat) : (K.fill d).path s
    = K.pathBefore s ++ (d.path (K.stateAt s) ++ K.pathAfter s d.symbol) := by
  induction K generalizing s with
  | hole => simp [fill, pathBefore, stateAt, pathAfter]
  | node p left inner right ih =>
    rw [fill, Derivation.path, pathAll_append, pathAll, ih, pathBefore,
      stateAt, pathAfter, symbol_fill]
    simp only [append_assoc]

theorem length_pathBefore (K : Surroundings) (s : Nat) :
    (K.pathBefore s).length = K.before.length := by
  induction K generalizing s with
  | hole => rfl
  | node p left inner right ih =>
    rw [pathBefore, before, length_append, length_append, Derivation.length_pathAll, ih]

end Surroundings

/-! ### Reading a part -/

namespace Automaton

/-- Each symbol of a production can be read from the state that the ones before it lead to. -/
theorem exists_step_of_isReadable {n : Nonterminal} {choice : Nat} {as : List Lookahead}
    {xs ys : List Symbol} {x : Symbol} {s : Nat} {st : State} (hst : states[s]? = some st)
    (h : isReadable n choice as st (xs ++ x :: ys) = true) :
    ∃ st' target next, states[stepAll s xs]? = some st' ∧ st'.step? x = some target ∧
      states[target]? = some next := by
  induction xs generalizing s st with
  | nil =>
    obtain ⟨target, next, htarget, hnext, -, -⟩ := isReadable_cons h
    exact ⟨st, target, next, hst, htarget, hnext⟩
  | cons y xs ih =>
    obtain ⟨target, next, htarget, hnext, -, hread⟩ := isReadable_cons h
    have hstep : step s y = target := step_eq (by rw [step?, hst]; exact htarget)
    have hsteps : stepAll s (y :: xs) = stepAll target xs := by
      rw [← hstep]
      rfl
    rw [hsteps]
    exact ih hnext hread

end Automaton

namespace Surroundings

variable {K : Surroundings} {d : Derivation}

/-- A part can be read from the state before it, if the whole can be read. -/
theorem exists_step_of_step {s target : Nat} {st next : State}
    (hlegal : (K.fill d).Obeys Production.IsLegal) (hst : states[s]? = some st)
    (htarget : st.step? (K.fill d).symbol = some target) (hnext : states[target]? = some next) :
    ∃ target', step? (K.stateAt s) d.symbol = some target' := by
  induction K generalizing s st target next with
  | hole => exact ⟨target, by rw [stateAt, step?, hst]; exact htarget⟩
  | node p left inner right ih =>
    obtain ⟨hp, hrhs, hall⟩ := hlegal
    obtain ⟨-, choice, -, hread⟩ := isReadable_of_step hst hp htarget hnext
    rw [← hrhs, map_append, map_cons] at hread
    obtain ⟨st', target', next', hst', htarget', hnext'⟩ := exists_step_of_isReadable hst hread
    exact ih (Derivation.obeyAll_append_iff.mp hall).2.1 hst' htarget' hnext'

/-- **A part of a text can be read from the state before it.** -/
theorem exists_step (hlegal : (K.fill d).Obeys Production.IsLegal)
    (hsymbol : (K.fill d).symbol = .nonterminal (.rule .start))
    (hd : d.symbol ≠ .nonterminal (.rule .start)) :
    ∃ target, step? (K.stateAt 0) d.symbol = some target := by
  cases K with
  | hole => exact absurd hsymbol hd
  | node p left inner right =>
    obtain ⟨lhs, rhs⟩ := p
    obtain rfl : lhs = .rule .start := by simpa [symbol] using hsymbol
    obtain ⟨hmem, hrhs, hall⟩ := hlegal
    obtain rfl : rhs = [.nonterminal (.rule .program)] := mem_singleton.mp hmem
    obtain ⟨e, he, hprogram⟩ := map_eq_singleton_iff.mp hrhs
    -- a text is a program and nothing else
    obtain ⟨rfl, hinner⟩ : left = [] ∧ inner.fill d = e := by
      cases left with
      | nil => exact ⟨rfl, (List.cons.inj he).1⟩
      | cons l left => simp at he
    subst hinner
    exact exists_step_of_step (K := inner) hall.1 rfl (by rw [hprogram]; rfl) rfl

end Surroundings

/-! ### Conditions and blocks -/

/-- Whether a symbol is a terminal. -/
def Symbol.isTerminal : Symbol → Bool
  | .terminal _ => true
  | .nonterminal _ => false

/-- Whether a nonterminal stands only right after terminals among symbols.  The flag says whether
    a terminal comes before them. -/
def Nonterminal.followsToken (n : Nonterminal) : Bool → List Symbol → Bool
  | _, [] => true
  | token, x :: xs => (x ≠ .nonterminal n || token) && n.followsToken x.isTerminal xs

/-- The phrases that come right after a token, wherever they stand. -/
def Nonterminal.entered : List Nonterminal := [.rule .condition, .rule .block]

variable {n : Nonterminal} {xs : List Symbol}

theorem Nonterminal.followsToken_of_mem_expansions {m : Nonterminal} (hn : n ∈ entered)
    (hxs : xs ∈ m.expansions) : n.followsToken false xs = true := by
  have hall : (m.expansions.all fun xs => entered.all fun n => n.followsToken false xs) = true := by
    cases m with
    | rule r => cases r <;> decide
    | many r => cases r <;> decide
  exact all_eq_true.mp (all_eq_true.mp hall xs hxs) n hn

theorem Nonterminal.exists_token_before {ys : List Symbol} {x : Symbol} {token : Bool}
    (h : n.followsToken token (xs ++ x :: .nonterminal n :: ys) = true) : ∃ t, x = .terminal t := by
  induction xs generalizing token with
  | nil =>
    cases x with
    | terminal t => exact ⟨t, rfl⟩
    | nonterminal m => simp [followsToken, Symbol.isTerminal] at h
  | cons y xs ih =>
    rw [cons_append, followsToken, Bool.and_eq_true] at h
    exact ih h.2

namespace Surroundings

/-- **Where a condition or a block stands**, the state before it is the one that the last token
    leads to. -/
theorem lastOf_pathBefore {K : Surroundings} {d : Derivation} {n : Nonterminal}
    (hlegal : (K.fill d).Obeys Production.IsLegal) (hd : d.symbol = .nonterminal n)
    (hn : n ∈ Nonterminal.entered) (hK : K ≠ hole) (q s : Nat) :
    lastOf q (K.pathBefore s) = K.stateAt s := by
  induction K generalizing q s with
  | hole => exact absurd rfl hK
  | node p left inner right ih =>
    obtain ⟨hp, hrhs, hall⟩ := hlegal
    cases inner with
    | node p' left' inner' right' =>
      rw [pathBefore, lastOf_append, stateAt]
      exact ih (Derivation.obeyAll_append_iff.mp hall).2.1 (by simp) _ _
    | hole =>
      have hfollows := Nonterminal.followsToken_of_mem_expansions hn hp
      rw [← hrhs, fill, map_append, map_cons, hd] at hfollows
      rcases eq_nil_or_concat left with rfl | ⟨left, l, rfl⟩
      · simp [Nonterminal.followsToken] at hfollows
      · rw [concat_eq_append] at hfollows ⊢
        rw [map_append, append_assoc] at hfollows
        obtain ⟨t, ht⟩ := Nonterminal.exists_token_before hfollows
        cases l with
        | node p' ds => simp [Derivation.symbol] at ht
        | leaf u =>
          rw [pathBefore, stateAt, pathAll_append, map_append, stepAll_append]
          simp [pathAll, Derivation.path, pathBefore, stateAt, lastOf, stepAll,
            Derivation.symbol]

end Surroundings

namespace Automaton

/-- Whether two states read everything alike but a certain nonterminal, and reduce nothing. -/
def State.alike (n : Nonterminal) (st st' : State) : Bool :=
  st.shifts = st'.shifts && st.reductions.isEmpty && st'.reductions.isEmpty &&
    st.gotos.filter (·.1 ≠ n) = st'.gotos.filter (·.1 ≠ n)

/-- All states before a condition are alike, and all states before a block. -/
theorem alike_states : (Nonterminal.entered.all fun n =>
    let sts := states.filter fun st => (st.gotos.lookup n).isSome
    sts.all fun st => sts.all fun st' => st.alike n st') = true := by
  decide +kernel

theorem lookup_filter_ne {n m : Nonterminal} (h : m ≠ n) (gotos : List (Nonterminal × Nat)) :
    (gotos.filter (·.1 ≠ n)).lookup m = gotos.lookup m := by
  induction gotos with
  | nil => rfl
  | cons g gotos ih =>
    obtain ⟨k, target⟩ := g
    by_cases hk : k = n
    · have hne : (m == k) = false := by simpa [hk] using h
      rw [filter_cons_of_neg (by simp [hk]), ih, lookup_cons, hne]
    · rw [filter_cons_of_pos (by simp [hk]), lookup_cons, lookup_cons, ih]

section Alike

variable {n : Nonterminal} (hn : n ∈ Nonterminal.entered) {a b target target' : Nat}
  (ha : step? a (.nonterminal n) = some target) (hb : step? b (.nonterminal n) = some target')
include hn ha hb

theorem exists_alike : ∃ st st', states[a]? = some st ∧ states[b]? = some st' ∧
    st.alike n st' = true := by
  obtain ⟨st, hst, hstep⟩ := Option.bind_eq_some_iff.mp ha
  obtain ⟨st', hst', hstep'⟩ := Option.bind_eq_some_iff.mp hb
  refine ⟨st, st', hst, hst', ?_⟩
  have hmem {s : Nat} {st : State} {target : Nat} (hst : states[s]? = some st)
      (h : st.step? (.nonterminal n) = some target) :
      st ∈ states.filter fun st => (st.gotos.lookup n).isSome := by
    refine mem_filter.mpr ⟨mem_of_getElem? hst, ?_⟩
    have hlookup : st.gotos.lookup n = some target := h
    simp [hlookup]
  have htable := all_eq_true.mp alike_states n hn
  exact all_eq_true.mp (all_eq_true.mp htable st (hmem hst hstep)) st'
    (hmem hst' hstep')

/-- The same tokens can be cut off in all states before a condition, and in all before a block. -/
theorem takes_eq_of_entered : takes a = takes b := by
  obtain ⟨st, st', hst, hst', h⟩ := exists_alike hn ha hb
  simp only [State.alike, Bool.and_eq_true, decide_eq_true_eq, List.isEmpty_iff] at h
  obtain ⟨⟨⟨hshifts, hreductions⟩, hreductions'⟩, -⟩ := h
  funext t
  simp [takes, action?, hst, hst', State.action?, hshifts, hreductions, hreductions']

theorem step_eq_of_entered {x : Symbol} (hx : x ≠ .nonterminal n) : step a x = step b x := by
  obtain ⟨st, st', hst, hst', h⟩ := exists_alike hn ha hb
  simp only [State.alike, Bool.and_eq_true, decide_eq_true_eq, List.isEmpty_iff] at h
  obtain ⟨⟨⟨hshifts, -⟩, -⟩, hgotos⟩ := h
  cases x with
  | terminal t => simp [step, step?, hst, hst', State.step?, hshifts]
  | nonterminal m =>
    have hne : m ≠ n := fun hm => hx (by rw [hm])
    simp only [step, step?, hst, hst', State.step?, Option.bind_some]
    rw [← lookup_filter_ne hne, hgotos, lookup_filter_ne hne]

end Alike

end Automaton

/-- What comes first in a phrase is no condition and no block. -/
theorem Derivation.symbol_ne_of_entered (hn : n ∈ Nonterminal.entered)
    {p : Production} {d : Derivation} {ds : List Derivation}
    (hlegal : (node p (d :: ds)).Obeys Production.IsLegal) : d.symbol ≠ .nonterminal n := by
  intro hd
  have hfollows := Nonterminal.followsToken_of_mem_expansions hn hlegal.1
  rw [← hlegal.2.1, map_cons, hd] at hfollows
  simp [Nonterminal.followsToken] at hfollows

/-- **Conditions are read alike wherever they stand, and so are blocks.** -/
theorem Derivation.path_eq_of_entered (hn : n ∈ Nonterminal.entered)
    {a b target target' : Nat} (ha : step? a (.nonterminal n) = some target)
    (hb : step? b (.nonterminal n) = some target') :
    ∀ d : Derivation, d.Obeys Production.IsLegal → d.path a = d.path b
  | leaf t, _ => by rw [path, path, step_eq_of_entered hn ha hb (by simp)]
  | node p [], _ => rfl
  | node p (d :: ds), hlegal => by
    have hd := path_eq_of_entered hn ha hb d hlegal.2.2.1
    rw [path, path, pathAll, pathAll, hd,
      step_eq_of_entered hn ha hb (symbol_ne_of_entered hn hlegal)]

end Ordo
