import Ordo.Proofs.Derivations
import Ordo.Proofs.Feeding

namespace Ordo

open Automaton

/-!
# The automaton finds every derivation

Reading the tokens of a derivation leaves exactly that derivation on the stack, so the parser
is complete for the grammar.  The one thing the grammar leaves open is where an `else` belongs;
there the automaton shifts, so a derivation is found if it is settled.

* `readTokens` — what the parser makes of tokens that are already cut;
* `Automaton.isReadable` — symbols can be read from a state and completed as a production;
* `Automaton.readsAll_states` — the table leads from the start of each production to its
  reduction;
* `readTokens_derivation`, `readTokens_program` — the tokens of a derivation are read as that
  derivation.

The argument needs no sets of items.  It is enough that wherever a completed phrase leads on,
each of its productions can be read from there and is reduced before whatever may come next,
and this is a property of the finished table.
-/

open List

open Derivation (symbol tokensAll lastHangs)

/-! ### Reading tokens -/

/-- What the parser makes of tokens that are already cut: each is fed and shifted in turn, and
    the end of the tokens has to be accepted. -/
def readTokens : Stack → List Token → Option Derivation
  | stack, [] =>
      match feed none stack with
      | .accept d => some d
      | _ => none
  | stack, t :: ts =>
      match feed (some t.kind) stack with
      | .shift target below => readTokens (⟨target, .leaf t⟩ :: below) ts
      | _ => none

variable {stack : Stack} {ts : List Token} {target : Nat} {p : Production} {d : Derivation}

/-- Only what comes of feeding the first token matters. -/
theorem readTokens_congr {stack' : Stack}
    (h : feed (nextKind ts) stack = feed (nextKind ts) stack') :
    readTokens stack ts = readTokens stack' ts := by
  cases ts with
  | nil => simp only [nextKind, head?_nil, Option.map_none] at h; simp only [readTokens, h]
  | cons t ts =>
    simp only [nextKind, head?_cons, Option.map_some] at h
    simp only [readTokens, h]

theorem readTokens_shift {t : Token}
    (h : action? stack.state (some t.kind) = some (.shift target)) :
    readTokens stack (t :: ts) = readTokens (⟨target, .leaf t⟩ :: stack) ts := by
  simp only [readTokens, feed_of_shift h]

theorem readTokens_reduce {next : Stack} {r : Reduction}
    (h : action? stack.state (nextKind ts) = some (.reduce r))
    (hp : r.production? = some p) (hstart : p.lhs ≠ .rule .start)
    (hnext : stack.reduce? p = some next) : readTokens stack ts = readTokens next ts :=
  readTokens_congr (feed_of_reduce h hp hstart hnext)

/-! ### Reading a production from the table -/

namespace Automaton

/-- The state that a symbol leads to. -/
def State.step? (st : State) : Symbol → Option Nat
  | .terminal t => st.shifts.lookup t
  | .nonterminal n => st.gotos.lookup n

/-- What may come next, as a list. -/
def Following.lookaheads : Following → List Lookahead
  | .nothing => [none]
  | .anyOf ts => ts.map some

variable {a : Lookahead} {st : State} {n : Nonterminal} {choice : Nat} {as : List Lookahead}
  {p : Production}

theorem Following.mem_lookaheads {f : Following} : a ∈ f.lookaheads ↔ f.admits a = true := by
  cases f with
  | nothing | anyOf ts => cases a <;> simp [lookaheads, admits]

/-- The lookaheads that a state has an action for. -/
def State.lookaheads (st : State) : List Lookahead :=
  st.shifts.map (fun m => some m.1) ++ st.reductions.flatMap fun r => r.before.lookaheads

theorem State.mem_lookaheads {act : Action} (h : st.action? a = some act) : a ∈ st.lookaheads := by
  unfold State.action? at h
  split at h
  · rename_i target hlookup
    obtain ⟨t, rfl, ht⟩ := Option.bind_eq_some_iff.mp hlookup
    exact mem_append_left _ (mem_map.mpr ⟨(t, target), mem_of_lookup ht, rfl⟩)
  · obtain ⟨r, hr, -⟩ := Option.map_eq_some_iff.mp h
    refine mem_append_right _ (mem_flatMap.mpr ⟨r, mem_of_find?_eq_some hr, ?_⟩)
    have hadmits := find?_some hr
    exact Following.mem_lookaheads.mpr hadmits

/-- Whether the indices completed on a state are those of a name that starts a statement.  A
    second name could follow there, in a declaration. -/
def State.isTarget (st : State) (n : Nonterminal) : Bool :=
  n = .many .indices && (st.shifts.lookup .cname).isSome

/-- What may come after a nonterminal that leads from one state to the next.  The indices of a
    target are followed only by an assignment or by one more index. -/
def State.ahead (st : State) (n : Nonterminal) (next : State) : List Lookahead :=
  if st.isTarget n then [some .assign, some .lsqb] else next.lookaheads

/-- Whether a state reduces a certain production before a lookahead. -/
def State.finishes (st : State) (n : Nonterminal) (choice : Nat) (a : Lookahead) : Bool :=
  match st.action? a with
  | some (.reduce r) => r.lhs = n && r.choice = choice
  | _ => false

/-- Whether a state reduces a certain production before each of some lookaheads.  The lookaheads
    mostly stand in the order of the table, so this is tried first. -/
def State.finishesAll (st : State) (n : Nonterminal) (choice : Nat) (as : List Lookahead) : Bool :=
  (match st.reductions with
    | [r] =>
        r.lhs = n && r.choice = choice && as.isSublist r.before.lookaheads
          && st.shifts.all fun m => !as.contains (some m.1)
    | _ => false)
    || as.all (st.finishes n choice)

theorem State.finishes_of_finishesAll (h : st.finishesAll n choice as = true) (ha : a ∈ as) :
    st.finishes n choice a = true := by
  unfold State.finishesAll at h
  rcases Bool.or_eq_true_iff.mp h with h | h
  · split at h
    · rename_i r hr
      simp only [Bool.and_eq_true, decide_eq_true_eq, all_eq_true,
        isSublist_iff_sublist, Bool.not_eq_true', contains_eq_mem,
        decide_eq_false_iff_not] at h
      obtain ⟨⟨⟨hn, hchoice⟩, hsub⟩, hshift⟩ := h
      have hadmits : r.before.admits a = true := Following.mem_lookaheads.mp (hsub.subset ha)
      have hnone : (a.bind fun t => st.shifts.lookup t) = none := by
        rw [Option.bind_eq_none_iff]
        rintro t rfl
        rw [lookup_eq_none_iff]
        intro m hm
        have hne : t ≠ m.1 := fun heq => hshift m hm (heq ▸ ha)
        exact bne_iff_ne.mpr hne
      simp [State.finishes, State.action?, hnone, hr, hadmits, hn, hchoice]
    · exact absurd h (by simp)
  · exact all_eq_true.mp h a ha

/-- Whether a symbol may be completed on a state, before the symbols that come after it in a
    production and then the lookaheads `as`. -/
def State.admits (st : State) (x : Symbol) (next : State) (xs : List Symbol)
    (as : List Lookahead) : Bool :=
  match x, xs with
  | .terminal _, _ => true
  | .nonterminal n, [] => !st.isTarget n || as.all [some .assign, some .lsqb].contains
  | .nonterminal n, y :: _ => y.starts.all fun t => (st.ahead n next).contains (some t)

/-- Whether symbols can be read one after the other, starting in a state, so that then a certain
    production is reduced before each of some lookaheads. -/
def isReadable (n : Nonterminal) (choice : Nat) (as : List Lookahead) :
    State → List Symbol → Bool
  | st, [] => st.finishesAll n choice as
  | st, x :: xs =>
      match (st.step? x).bind fun target => states[target]? with
      | none => false
      | some next => st.admits x next xs as && isReadable n choice as next xs

/-- Reading one more symbol. -/
theorem isReadable_cons
    {x : Symbol} {xs : List Symbol} (h : isReadable n choice as st (x :: xs) = true) :
    ∃ target next, st.step? x = some target ∧ states[target]? = some next ∧
      st.admits x next xs as = true ∧ isReadable n choice as next xs = true := by
  simp only [isReadable] at h
  split at h
  · exact absurd h (by simp)
  · rename_i next hstep
    obtain ⟨target, htarget, hnext⟩ := Option.bind_eq_some_iff.mp hstep
    rw [Bool.and_eq_true] at h
    exact ⟨target, next, htarget, hnext, h.1, h.2⟩

/-- What may come after a production that is read from one state and leads to the next.  After
    an `if` without an `else`, there is no `else`. -/
def State.aheadOf (st : State) (p : Production) (next : State) : List Lookahead :=
  if p = openIf then (st.ahead p.lhs next).filter fun a => a ≠ some .kwElse
  else st.ahead p.lhs next

/-- Whether all productions of a nonterminal can be read from a state on which it is
    completed. -/
def State.readsAll (st : State) (n : Nonterminal) (target : Nat) : Bool :=
  n ≠ .rule .start && match states[target]? with
    | none => false
    | some next => n.expansions.zipIdx.all fun q =>
        isReadable n q.2 (st.aheadOf ⟨n, q.1⟩ next) st q.1

/-- **The table is complete.**  Wherever a completed nonterminal leads on, each of its
    productions can be read. -/
theorem readsAll_states :
    (states.all fun st => st.gotos.all fun g => st.readsAll g.1 g.2) = true := by
  decide +kernel

/-- A production is read from every state on which its nonterminal is completed. -/
theorem isReadable_of_step {next : State} {s target : Nat}
    (hst : states[s]? = some st) (hp : p.IsLegal)
    (htarget : st.step? (.nonterminal p.lhs) = some target) (hnext : states[target]? = some next) :
    p.lhs ≠ .rule .start ∧ ∃ choice, p.lhs.productions[choice]? = some p ∧
      isReadable p.lhs choice (st.aheadOf p next) st p.rhs = true := by
  have hall := all_eq_true.mp readsAll_states st (mem_of_getElem? hst)
  have hreads := all_eq_true.mp hall _ (mem_of_lookup htarget)
  simp only [State.readsAll, hnext, Bool.and_eq_true, decide_eq_true_eq] at hreads
  obtain ⟨choice, hchoice⟩ := getElem?_of_mem hp
  refine ⟨hreads.1, choice, ?_, ?_⟩
  · rw [Nonterminal.productions, getElem?_map, hchoice]
    rfl
  · exact all_eq_true.mp hreads.2 (p.rhs, choice) (mk_mem_zipIdx_iff_getElem?.mpr hchoice)

/-- A state that finishes a production reduces it. -/
theorem State.exists_reduce_of_finishes (hchoice : p.lhs.productions[choice]? = some p)
    (h : st.finishes p.lhs choice a = true) :
    ∃ r, st.action? a = some (.reduce r) ∧ r.production? = some p := by
  unfold State.finishes at h
  split at h
  · rename_i r hr
    simp only [Bool.and_eq_true, decide_eq_true_eq] at h
    exact ⟨r, hr, by rw [Reduction.production?, h.1, h.2, hchoice]⟩
  · exact absurd h (by simp)

end Automaton

/-! ### Completeness -/

/-- A reduction of a production whose right side was read on top of a stack. -/
theorem Stack.reduce?_append {frames : Stack} {children : List Derivation}
    (hframes : frames.map Frame.derivation = children.reverse) (hrhs : children.map symbol = p.rhs)
    (hgoto : goto? stack.state p.lhs = some target) :
    Stack.reduce? (frames ++ stack) p = some (⟨target, .node p children⟩ :: stack) := by
  have hlen : p.rhs.length = frames.length := by
    have h₁ := congrArg List.length hframes
    have h₂ := congrArg List.length hrhs
    simp only [length_map, length_reverse] at h₁ h₂
    omega
  have hchildren : frames.reverse.map (·.derivation) = children := by
    rw [map_reverse, hframes, reverse_reverse]
  simp only [Stack.reduce?, hlen, take_left, drop_left, hchildren, hrhs, if_true,
    hgoto, Option.map_some]

/-- The action of the state on top of a stack. -/
theorem action?_of_state {s : Nat} {st : State} (h : states[s]? = some st) (a : Lookahead) :
    action? s a = st.action? a := by
  rw [action?, h, Option.bind_some]

/-- What comes after the first of several derivations is something that may. -/
theorem Automaton.State.nextKind_mem_ahead {st next : State} {ds : List Derivation}
    {as : List Lookahead} {rest : List Token} {n : Nonterminal} {choice : Nat} {m : Nonterminal}
    (hall : Derivation.ObeyAll Production.IsLegal ds)
    (hadmits : st.admits d.symbol next (ds.map symbol) as = true)
    (hread : isReadable n choice as next (ds.map symbol) = true)
    (hrest : nextKind rest ∈ as) (hm : d.symbol = .nonterminal m) :
    nextKind (tokensAll ds ++ rest) ∈ st.ahead m next := by
  rw [hm] at hadmits
  cases ds with
  | nil =>
    -- the last symbol of the production: the state it leads to finishes the production
    simp only [map_nil, State.admits, isReadable] at hadmits hread
    show nextKind rest ∈ _
    unfold State.ahead
    by_cases htarget : st.isTarget m = true
    · rw [if_pos htarget]
      simp only [htarget, Bool.not_true, Bool.false_or, all_eq_true] at hadmits
      simpa using hadmits _ hrest
    · rw [if_neg htarget]
      have hfin := State.finishes_of_finishesAll hread hrest
      unfold State.finishes at hfin
      split at hfin
      · rename_i r hr
        exact State.mem_lookaheads hr
      · exact absurd hfin (by simp)
  | cons e es =>
    obtain ⟨t, ht, hnext⟩ := Derivation.starts_tokensAll hall rest
    rw [hnext]
    simp only [map_cons, State.admits, all_eq_true] at hadmits
    simpa using hadmits t ht

mutual

/-- **Completeness.**  From a state where the symbol of a derivation may be read, the tokens of
    the derivation are read as that derivation. -/
theorem readTokens_derivation :
    ∀ (d : Derivation) {stack : Stack} {st next : State} {target : Nat} {rest : List Token},
      d.Obeys Production.IsLegal → d.Settled →
      (d.hangs = true → nextKind rest ≠ some .kwElse) →
      states[stack.state]? = some st → st.step? d.symbol = some target →
      states[target]? = some next →
      (∀ n, d.symbol = .nonterminal n → nextKind rest ∈ st.ahead n next) →
      readTokens stack (d.tokens ++ rest) = readTokens (⟨target, d⟩ :: stack) rest
  | .leaf t, stack, st, next, target, rest, _, _, _, hst, htarget, _, _ => by
    have hshift : action? stack.state (some t.kind) = some (.shift target) := by
      rw [action?_of_state hst, State.action?, Option.bind_some]
      simp only [symbol, State.step?] at htarget
      rw [htarget]
    exact readTokens_shift hshift
  | .node p children, stack, st, next, target, rest, hobeys, hsettled, hhangs, hst, htarget,
      hnext, hahead => by
    simp only [Derivation.Obeys] at hobeys
    obtain ⟨hp, hrhs, hall⟩ := hobeys
    simp only [Derivation.Settled] at hsettled
    simp only [Derivation.hangs, Bool.or_eq_true, decide_eq_true_eq] at hhangs
    obtain ⟨hstart, choice, hchoice, hread⟩ := isReadable_of_step hst hp htarget hnext
    have hrest : nextKind rest ∈ st.aheadOf p next := by
      unfold State.aheadOf
      split
      · rename_i hopen
        exact mem_filter.mpr ⟨hahead p.lhs rfl, by simpa using hhangs (Or.inl hopen)⟩
      · exact hahead p.lhs rfl
    obtain ⟨frames, last, hframes, hlast, hfin, htokens⟩ :=
      readTokens_derivations children hall hsettled (fun h => hhangs (Or.inr h)) hst
        (hrhs ▸ hread) hrest
    obtain ⟨r, hr, hprod⟩ := State.exists_reduce_of_finishes hchoice hfin
    have hgoto : goto? stack.state p.lhs = some target := by
      rw [goto?, hst, Option.bind_some]
      exact htarget
    have hreduce := Stack.reduce?_append hframes hrhs hgoto
    rw [← action?_of_state hlast] at hr
    exact htokens.trans (readTokens_reduce hr hprod hstart hreduce)

/-- The tokens of several derivations are read as these derivations, up to a state that finishes
    the production they belong to. -/
theorem readTokens_derivations :
    ∀ (ds : List Derivation) {stack : Stack} {st : State} {n : Nonterminal} {choice : Nat}
      {as : List Lookahead} {rest : List Token},
      Derivation.ObeyAll Production.IsLegal ds → Derivation.SettledAll ds →
      (lastHangs ds = true → nextKind rest ≠ some .kwElse) →
      states[stack.state]? = some st →
      isReadable n choice as st (ds.map symbol) = true → nextKind rest ∈ as →
      ∃ (frames : Stack) (last : State), frames.map Frame.derivation = ds.reverse ∧
        states[Stack.state (frames ++ stack)]? = some last ∧
        last.finishes n choice (nextKind rest) = true ∧
        readTokens stack (tokensAll ds ++ rest) = readTokens (frames ++ stack) rest
  | [], stack, st, n, choice, as, rest, _, _, _, hst, hread, hrest =>
    ⟨[], st, rfl, hst, State.finishes_of_finishesAll hread hrest, rfl⟩
  | d :: ds, stack, st, n, choice, as, rest, hall, hsettled, hhangs, hst, hread, hrest => by
    simp only [Derivation.ObeyAll] at hall
    simp only [Derivation.SettledAll] at hsettled
    obtain ⟨target, next, htarget, hnext, hadmits, hread⟩ := isReadable_cons hread
    have hhead : d.hangs = true → nextKind (tokensAll ds ++ rest) ≠ some .kwElse := by
      intro hd
      cases ds with
      | nil => exact hhangs (by simpa [lastHangs] using hd)
      | cons e es =>
        obtain ⟨t, -, ht⟩ := Derivation.starts_tokensAll hall.2 []
        rw [append_nil] at ht
        rw [nextKind_append ht rest, ← ht]
        exact hsettled.2.1 hd
    have htail : lastHangs ds = true → nextKind rest ≠ some .kwElse := by
      intro hlast
      cases ds with
      | nil => exact absurd hlast (by simp [lastHangs])
      | cons e es => exact hhangs hlast
    have hfirst := readTokens_derivation d hall.1 hsettled.1 hhead hst htarget hnext
      fun m hm => State.nextKind_mem_ahead hall.2 hadmits hread hrest hm
    obtain ⟨frames, last, hframes, hlast, hfin, htokens⟩ :=
      readTokens_derivations ds hall.2 hsettled.2.2 htail
        (show states[Stack.state (⟨target, d⟩ :: stack)]? = some next from hnext) hread hrest
    refine ⟨frames ++ [⟨target, d⟩], last, ?_, ?_, hfin, ?_⟩
    · simp [hframes]
    · simpa using hlast
    · simpa only [tokensAll, append_assoc, singleton_append]
        using hfirst.trans htokens

end
/-- The tokens of a program are read as that program. -/
theorem readTokens_program (hobeys : d.Obeys Production.IsLegal)
    (hsettled : d.Settled) (hsymbol : d.symbol = .nonterminal (.rule .program)) :
    readTokens [] d.tokens
      = some (.node ⟨.rule .start, [.nonterminal (.rule .program)]⟩ [d]) := by
  obtain ⟨st, hst⟩ : ∃ st, states[0]? = some st := ⟨_, rfl⟩
  obtain ⟨next, hnext⟩ : ∃ next, states[1]? = some next := ⟨_, rfl⟩
  have htarget : st.step? d.symbol = some 1 := by
    rw [hsymbol]
    cases hst
    decide
  have hahead : ∀ n, d.symbol = .nonterminal n → nextKind [] ∈ st.ahead n next := by
    intro n hn
    obtain rfl : Nonterminal.rule .program = n := by simpa [hsymbol] using hn
    cases hst
    cases hnext
    decide
  have hread : readTokens [] (d.tokens ++ []) = readTokens [⟨1, d⟩] [] :=
    readTokens_derivation d hobeys hsettled (fun _ => by simp [nextKind]) hst htarget hnext hahead
  rw [append_nil] at hread
  rw [hread, readTokens, feed_eq]
  rfl

end Ordo
