import Ordo.Proofs.Completeness
import Ordo.Proofs.Values

namespace Ordo

open Automaton Derivation

/-!
# Runs of the parser

What a run of the parser over tokens comes to says how it ran.  The states that the tokens are
shifted to can be read off the derivation, from left to right, since a reduction puts nothing on
the stack but what the table says about the state below.  And no `if` without an `else` stands
before an `else` in the derivation, since the table never completes such an `if` there.

* `Run` — a run over tokens that are already cut, with the states that it shifts to;
* `Run.exists_top` — what reductions and shifts keep, a run keeps;
* `Automaton.step`, `Derivation.path` — the states that the tokens of a derivation lead to;
* `Run.path_eq` — a run goes through the states of its derivation;
* `Run.settled` — what a run comes to is settled;
* `exists_run` — every settled derivation of a program has a run.
-/

open List

/-- A run of the parser over tokens that are already cut: the states that it shifts to, and the
    derivation that it comes to. -/
inductive Run : Stack → List Nat → List Token → Derivation → Prop
  | accept {stack : Stack} {d : Derivation} (h : feed none stack = .accept d) : Run stack [] [] d
  | shift {stack below : Stack} {t : Token} {target : Nat} {qs : List Nat} {ts : List Token}
      {d : Derivation} (h : feed (some t.kind) stack = .shift target below)
      (hrun : Run (⟨target, .leaf t⟩ :: below) qs ts d) : Run stack (target :: qs) (t :: ts) d

variable {ts : List Token} {d : Derivation} {qs : List Nat}

variable {stack : Stack} {r : Automaton.Reduction} {p : Production}

theorem exists_run_of_readTokens (h : readTokens stack ts = some d) : ∃ qs, Run stack qs ts d := by
  induction ts generalizing stack with
  | nil =>
    rw [readTokens] at h
    split at h
    · rename_i e haccept
      obtain rfl := Option.some.inj h
      exact ⟨[], .accept haccept⟩
    · simp at h
  | cons t ts ih =>
    rw [readTokens] at h
    split at h
    · rename_i target below hshift
      obtain ⟨qs, hrun⟩ := ih h
      exact ⟨target :: qs, .shift hshift hrun⟩
    · simp at h

/-- **What reductions and shifts keep, a run keeps**: a property of the stack that may depend on
    the states and tokens so far, and on the next token. -/
theorem Run.exists_top {P : List Nat → List Token → Lookahead → Stack → Prop}
    (hreduce : ∀ {qs : List Nat} {ts : List Token} {a : Lookahead} {stack next : Stack}
      {r : Automaton.Reduction} {p : Production}, P qs ts a stack →
      action? stack.state a = some (.reduce r) → r.production? = some p →
      stack.reduce? p = some next → P qs ts a next)
    (hshift : ∀ {qs : List Nat} {ts : List Token} {t : Token} {stack : Stack} {target : Nat},
      P qs ts (some t.kind) stack → action? stack.state (some t.kind) = some (.shift target) →
      ∀ a, P (qs ++ [target]) (ts ++ [t]) a (⟨target, .leaf t⟩ :: stack))
    (hstart : ∀ a, P [] [] a [])
    (h : Run [] qs ts d) : ∃ f p, P qs ts none [f] ∧ d = .node p [f.derivation] := by
  -- what was read before a stack is kept apart from what the run still reads
  suffices hrun : ∀ {stack qs ts d}, Run stack qs ts d → ∀ qs₀ ts₀, (∀ a, P qs₀ ts₀ a stack) →
      ∃ f p, P (qs₀ ++ qs) (ts₀ ++ ts) none [f] ∧ d = .node p [f.derivation] from
    hrun h [] [] hstart
  intro stack qs ts d h
  induction h with
  | accept haccept =>
    intro qs₀ ts₀ hstack
    have hends := feed_endsWith (P := P qs₀ ts₀ none) hreduce (hstack none)
    rw [haccept] at hends
    obtain ⟨f, p, hf, -, rfl⟩ := hends
    exact ⟨f, p, by simpa using hf, rfl⟩
  | @shift stack below t target qs ts d hfeed hrun ih =>
    intro qs₀ ts₀ hstack
    have hends := feed_endsWith (P := P qs₀ ts₀ (some t.kind)) hreduce (hstack _)
    rw [hfeed] at hends
    obtain ⟨f, p, hf, hd⟩ := ih _ _ (hshift hends.1 hends.2)
    exact ⟨f, p, by simpa using hf, hd⟩

/-! ### The states of a run -/

namespace Automaton

/-- The state that a symbol leads to, with states given by number. -/
def step? (s : Nat) (x : Symbol) : Option Nat := states[s]?.bind fun st => st.step? x

/-- The state that a symbol leads to.  Where the table has none, it is the start. -/
def step (s : Nat) (x : Symbol) : Nat := (step? s x).getD 0

variable {s target : Nat}

theorem step_eq {x : Symbol} (h : step? s x = some target) : step s x = target := by
  rw [step, h]
  rfl

/-- The state that several symbols lead to, one after another. -/
def stepAll (s : Nat) (xs : List Symbol) : Nat := xs.foldl step s

theorem stepAll_append (s : Nat) (xs ys : List Symbol) :
    stepAll s (xs ++ ys) = stepAll (stepAll s xs) ys := foldl_append

/-- The last of some states, or the one before them. -/
def lastOf (q : Nat) (qs : List Nat) : Nat := qs.foldl (fun _ s => s) q

theorem lastOf_append (q : Nat) (qs qs' : List Nat) :
    lastOf q (qs ++ qs') = lastOf (lastOf q qs) qs' := foldl_append

/-- What comes before does not matter, if there is some state. -/
theorem lastOf_congr (h : qs ≠ []) (q q' : Nat) : lastOf q qs = lastOf q' qs := by
  cases qs with
  | nil => exact absurd rfl h
  | cons s qs => rfl

theorem step_of_shift {t : Terminal}
    (h : action? s (some t) = some (.shift target)) : step s (.terminal t) = target := by
  obtain ⟨st, hst, hact⟩ := Option.bind_eq_some_iff.mp h
  unfold State.action? at hact
  split at hact
  · rename_i found hlookup
    have hfound : found = target := by simpa using hact
    simp only [Option.bind_some] at hlookup
    exact step_eq (by simp [step?, hst, State.step?, hlookup, hfound])
  · simp at hact

theorem step_of_goto {n : Nonterminal} (h : goto? s n = some target) :
    step s (.nonterminal n) = target := step_eq h

end Automaton

namespace Derivation

mutual

/-- The states that the tokens of a derivation lead to, if it is read from a state. -/
def path (s : Nat) : Derivation → List Nat
  | leaf t => [step s (.terminal t.kind)]
  | node _ ds => pathAll s ds

/-- The states that the tokens of several derivations lead to. -/
def pathAll (s : Nat) : List Derivation → List Nat
  | [] => []
  | d :: ds => d.path s ++ pathAll (step s d.symbol) ds

end

theorem pathAll_append (s : Nat) (ds es : List Derivation) :
    pathAll s (ds ++ es) = pathAll s ds ++ pathAll (stepAll s (ds.map symbol)) es := by
  induction ds generalizing s with
  | nil => rfl
  | cons d ds ih =>
    rw [cons_append, pathAll, pathAll, ih, append_assoc]
    rfl

mutual

theorem length_path (s : Nat) (d : Derivation) : (d.path s).length = d.tokens.length := by
  cases d with
  | leaf t => rfl
  | node p ds =>
    rw [path, tokens]
    exact length_pathAll s ds

theorem length_pathAll (s : Nat) (ds : List Derivation) :
    (pathAll s ds).length = (tokensAll ds).length := by
  cases ds with
  | nil => rfl
  | cons d ds =>
    rw [pathAll, tokensAll, length_append, length_append, length_path s d,
      length_pathAll _ ds]

end

end Derivation

namespace Stack

/-- The derivations on a stack, from the bottom up. -/
def derivations (stack : Stack) : List Derivation := (stack.map Frame.derivation).reverse

theorem derivations_cons (f : Frame) (below : Stack) :
    derivations (f :: below) = below.derivations ++ [f.derivation] := by
  simp [derivations]

/-- Every state on a stack is where its derivation leads from the state below. -/
def IsLinked : Stack → Prop
  | [] => True
  | f :: below => f.state = step (state below) f.derivation.symbol ∧ IsLinked below

variable {stack : Stack}

theorem IsLinked.state_eq (h : stack.IsLinked) :
    stack.state = stepAll 0 (stack.derivations.map symbol) := by
  induction stack with
  | nil => rfl
  | cons f below ih =>
    rw [derivations_cons, map_append, stepAll_append, ← ih h.2]
    exact h.1

variable {below next : Stack} {p : Production}

theorem IsLinked.of_append {front : Stack} (h : IsLinked (front ++ below)) : below.IsLinked := by
  induction front with
  | nil => exact h
  | cons f front ih => exact ih h.2

/-- What a reduction does to the derivations on a stack. -/
theorem derivations_reduce (h : stack.reduce? p = some next) :
    ∃ (target : Nat) (front below : Stack) (children : List Derivation),
      stack = front ++ below ∧ next = ⟨target, .node p children⟩ :: below ∧
      goto? below.state p.lhs = some target ∧
      stack.derivations = below.derivations ++ children ∧
      children.map symbol = p.rhs := by
  obtain ⟨target, hgoto, hrhs, rfl⟩ := Stack.reduce?_eq_some h
  refine ⟨target, _, _, _, (take_append_drop p.rhs.length stack).symm, rfl, hgoto, ?_, hrhs⟩
  simp only [derivations, ← map_reverse, ← map_append, ← reverse_append,
    take_append_drop]

/-- A reduction keeps the tokens on a stack. -/
theorem tokensAll_reduce (h : stack.reduce? p = some next) :
    tokensAll next.derivations = tokensAll stack.derivations := by
  obtain ⟨target, front, below, children, -, rfl, -, hderivations, -⟩ := derivations_reduce h
  rw [hderivations, derivations_cons, tokensAll_append, tokensAll_append]
  simp [tokensAll, tokens]

/-- The states that the tokens on a stack were shifted to. -/
def path (stack : Stack) : List Nat := pathAll 0 stack.derivations

theorem path_cons (f : Frame) (h : below.IsLinked) :
    path (f :: below) = below.path ++ f.derivation.path below.state := by
  rw [path, derivations_cons, Derivation.pathAll_append, ← h.state_eq, path]
  simp [pathAll]

/-- A reduction keeps the links and the states of a stack. -/
theorem IsLinked.reduce (h : stack.IsLinked)
    (hreduce : stack.reduce? p = some next) : next.IsLinked ∧ next.path = stack.path := by
  obtain ⟨target, front, below, children, rfl, rfl, hgoto, hderivations, -⟩ :=
    derivations_reduce hreduce
  have hbelow : below.IsLinked := h.of_append
  refine ⟨⟨(step_of_goto hgoto).symm, hbelow⟩, ?_⟩
  rw [path_cons _ hbelow, path, path, hderivations, Derivation.pathAll_append, ← hbelow.state_eq,
    Derivation.path]

end Stack

/-- **A run goes through the states of its derivation.** -/
theorem Run.path_eq (h : Run [] qs ts d) : d.path 0 = qs := by
  obtain ⟨f, p, ⟨-, hpath⟩, rfl⟩ := Run.exists_top
    (P := fun qs _ _ stack => stack.IsLinked ∧ stack.path = qs)
    (fun hstack _ _ hnext =>
      ⟨(hstack.1.reduce hnext).1, (hstack.1.reduce hnext).2.trans hstack.2⟩)
    (fun hstack hact _ => by
      have hstep := step_of_shift hact
      refine ⟨⟨hstep.symm, hstack.1⟩, ?_⟩
      rw [Stack.path_cons _ hstack.1, hstack.2, Derivation.path, hstep])
    (fun _ => ⟨trivial, rfl⟩) h
  exact hpath

/-- A run comes to a derivation of its tokens. -/
theorem Run.tokens_eq (h : Run [] qs ts d) : d.tokens = ts := by
  obtain ⟨f, p, htokens, rfl⟩ := Run.exists_top
    (P := fun _ ts _ stack => tokensAll stack.derivations = ts)
    (fun hstack _ _ hnext => (Stack.tokensAll_reduce hnext).trans hstack)
    (fun hstack _ _ => by
      rw [Stack.derivations_cons, tokensAll_append, hstack]
      simp [tokensAll, tokens])
    (fun _ => rfl) h
  exact htokens

/-- Tokens that can each be taken in the state before it. -/
def TakesAll : Nat → List Nat → List Token → Prop
  | q, q' :: qs, t :: ts => takes q t.kind = true ∧ TakesAll q' qs ts
  | _, _, _ => True

theorem TakesAll.of_append {q : Nat} {qs' : List Nat} {us : List Token}
    (hlength : qs.length = ts.length) (h : TakesAll q (qs ++ qs') (ts ++ us)) :
    TakesAll q qs ts ∧ TakesAll (lastOf q qs) qs' us := by
  induction ts generalizing q qs with
  | nil =>
    obtain rfl := length_eq_zero_iff.mp hlength
    exact ⟨trivial, h⟩
  | cons t ts ih =>
    obtain ⟨q', qs, rfl⟩ := exists_cons_of_length_eq_add_one hlength
    obtain ⟨hqs, hrest⟩ := ih (by simpa using hlength) h.2
    exact ⟨⟨h.1, hqs⟩, hrest⟩

theorem Run.takesAll (h : Run stack qs ts d) : TakesAll stack.state qs ts := by
  induction h with
  | accept => trivial
  | shift h hrun ih => exact ⟨isSome_action_of_feed h, ih⟩

/-! ### Where an `else` belongs -/

namespace Derivation

variable {ds es : List Derivation}

theorem lastHangs_append (hes : es ≠ []) : lastHangs (ds ++ es) = lastHangs es := by
  rw [lastHangs_eq, lastHangs_eq, getLast?_append, getLast?_eq_some_getLast hes]
  rfl

/-- What follows one derivation is what starts the next. -/
theorem nextKind_tokensAll_append (es : List Derivation)
    (h : ObeyAll Production.IsLegal (d :: ds)) :
    nextKind (tokensAll (d :: ds ++ es)) = nextKind (tokensAll (d :: ds)) := by
  obtain ⟨t, -, ht⟩ := starts_tokensAll h []
  rw [append_nil] at ht
  rw [tokensAll_append, nextKind_append ht, ht]

/-- What is derived by the grammar is not empty. -/
theorem tokens_ne_nil (h : d.Obeys Production.IsLegal) : d.tokens ≠ [] := by
  obtain ⟨t, -, ht⟩ := d.starts_tokens h []
  rintro hnil
  simp [hnil, nextKind] at ht

theorem path_ne_nil (h : d.Obeys Production.IsLegal) (s : Nat) : d.path s ≠ [] := by
  intro hnil
  have hlength := d.length_path s
  rw [hnil] at hlength
  exact tokens_ne_nil h (length_eq_zero_iff.mp hlength.symm)

/-- Settled derivations one after another. -/
theorem settledAll_append_iff (h : ObeyAll Production.IsLegal ds) :
    SettledAll (ds ++ es) ↔ SettledAll ds ∧ SettledAll es ∧
      (lastHangs ds = true → nextKind (tokensAll es) ≠ some .kwElse) := by
  induction ds with
  | nil => simp [SettledAll, lastHangs]
  | cons d ds ih =>
    cases ds with
    | nil =>
      simp only [cons_append, nil_append, SettledAll, lastHangs, isEmpty_nil,
        if_true, tokensAll, and_true]
      have hnone : nextKind [] ≠ some Terminal.kwElse := by simp [nextKind]
      constructor
      · rintro ⟨hd, hhangs, hes⟩
        exact ⟨⟨hd, fun _ => hnone⟩, hes, hhangs⟩
      · rintro ⟨⟨hd, -⟩, hes, hhangs⟩
        exact ⟨hd, hhangs, hes⟩
    | cons e ds =>
      have hnext := nextKind_tokensAll_append es h.2
      have hlast : lastHangs (d :: e :: ds) = lastHangs (e :: ds) := rfl
      have hcons (fs : List Derivation) : SettledAll (d :: fs) ↔ d.Settled ∧
          (d.hangs = true → nextKind (tokensAll fs) ≠ some .kwElse) ∧ SettledAll fs := by
        rw [SettledAll]
      rw [cons_append, hcons, hcons, ih h.2, hnext, hlast]
      simp only [and_assoc]

end Derivation

/-- Before an `else`, the table does not complete an `if` without one. -/
def Automaton.State.waitsForElse (st : State) : Bool :=
  match st.action? (some .kwElse) with
  | some (.reduce r) => r.production? ≠ some openIf
  | _ => true

theorem Automaton.waitsForElse_states : states.all State.waitsForElse = true := by
  decide +kernel

theorem Automaton.ne_openIf_of_reduce {s : Nat}
    (h : action? s (some .kwElse) = some (.reduce r)) (hp : r.production? = some p) :
    p ≠ openIf := by
  obtain ⟨st, hst, hact⟩ := Option.bind_eq_some_iff.mp h
  have hwaits := all_eq_true.mp waitsForElse_states st (mem_of_getElem? hst)
  unfold State.waitsForElse at hwaits
  rw [hact] at hwaits
  simpa [hp] using hwaits

/-- What is on a stack before a lookahead: settled derivations by the grammar, and no `if` without
    an `else` on top if the lookahead is an `else`. -/
structure Stack.IsSettled (stack : Stack) (a : Lookahead) : Prop where
  legal : Derivation.ObeyAll Production.IsLegal stack.derivations
  settled : Derivation.SettledAll stack.derivations
  hangs : lastHangs stack.derivations = true → a ≠ some .kwElse

/-- A reduction keeps a stack settled. -/
theorem Stack.IsSettled.reduce {a : Lookahead} {next : Stack} (h : stack.IsSettled a)
    (hact : action? stack.state a = some (.reduce r))
    (hp : r.production? = some p) (hnext : stack.reduce? p = some next) : next.IsSettled a := by
  obtain ⟨target, front, below, children, -, rfl, -, hderivations, hrhs⟩ := derivations_reduce hnext
  have hlegal : p.IsLegal := r.rhs_mem_expansions hp
  have hne : children ≠ [] := by
    rintro rfl
    exact (p.lhs.expansion_climbs p.rhs hlegal).1 hrhs.symm
  obtain ⟨hobeys, hsettled, hhangs⟩ := h
  rw [hderivations] at hobeys hsettled hhangs
  obtain ⟨hbelow, hchildren⟩ := Derivation.obeyAll_append_iff.mp hobeys
  obtain ⟨hsettledBelow, hsettledChildren, hnextBelow⟩ :=
    (settledAll_append_iff hbelow).mp hsettled
  rw [lastHangs_append hne] at hhangs
  constructor
  · rw [derivations_cons]
    exact Derivation.obeyAll_append_iff.mpr ⟨hbelow, ⟨hlegal, hrhs, hchildren⟩, trivial⟩
  · rw [derivations_cons, settledAll_append_iff hbelow]
    refine ⟨hsettledBelow, ⟨hsettledChildren, fun _ => by simp [tokensAll, nextKind],
      trivial⟩, ?_⟩
    simpa [tokensAll, tokens] using hnextBelow
  · rw [derivations_cons, lastHangs_append (by simp)]
    simp only [lastHangs, isEmpty_nil, if_true, Derivation.hangs, Bool.or_eq_true,
      decide_eq_true_eq]
    rintro (hopen | hlast)
    · rintro rfl
      exact ne_openIf_of_reduce hact hp hopen
    · exact hhangs hlast

/-- A token that is shifted leaves nothing open. -/
theorem Stack.IsSettled.shift {t : Token} (h : stack.IsSettled (some t.kind))
    (target : Nat) (a : Lookahead) : Stack.IsSettled (⟨target, .leaf t⟩ :: stack) a := by
  constructor
  · rw [derivations_cons]
    exact Derivation.obeyAll_append_iff.mpr ⟨h.legal, trivial, trivial⟩
  · rw [derivations_cons, settledAll_append_iff h.legal]
    refine ⟨h.settled, ⟨trivial, fun hhangs => ?_, trivial⟩, h.hangs⟩
    simp [Derivation.hangs] at hhangs
  · rw [derivations_cons, lastHangs_append (by simp)]
    simp [lastHangs, Derivation.hangs]

theorem Stack.isSettled_nil (a : Lookahead) : Stack.IsSettled [] a :=
  ⟨trivial, trivial, fun h => absurd h (by simp [derivations, lastHangs])⟩

/-- **What a run comes to is settled.** -/
theorem Run.settled (h : Run [] qs ts d) : d.Settled := by
  obtain ⟨f, p, hf, rfl⟩ := Run.exists_top (P := fun _ _ a stack => stack.IsSettled a)
    Stack.IsSettled.reduce (fun hstack _ => hstack.shift _) Stack.isSettled_nil h
  exact hf.settled

/-- **Every settled derivation of a text has a run.** -/
theorem exists_run (hlegal : d.Obeys Production.IsLegal)
    (hsymbol : d.symbol = .nonterminal (.rule .start)) (hsettled : d.Settled) :
    ∃ qs, Run [] qs d.tokens d := by
  cases d with
  | leaf t => simp [symbol] at hsymbol
  | node p ds =>
    obtain ⟨lhs, rhs⟩ := p
    obtain rfl : lhs = .rule .start := by simpa [symbol] using hsymbol
    obtain ⟨hmem, hrhs, hds⟩ := hlegal
    obtain rfl : rhs = [.nonterminal (.rule .program)] := mem_singleton.mp hmem
    obtain ⟨d, rfl, hd⟩ := map_eq_singleton_iff.mp hrhs
    have hread := exists_run_of_readTokens (readTokens_program hds.1 hsettled.1 hd)
    rwa [tokens, tokensAll, tokensAll, append_nil]

end Ordo
