import Ordo.Proofs.Derivations
import Ordo.Proofs.Feeding

namespace Ordo

open Automaton

/-!
# What the parser accepts is derived by the grammar

* `Token.IsLexed` — tokens that were cut from a text;
* `Derivation.IsSound` — a derivation that uses only productions of the grammar, and whose
  tokens were cut from a text;
* `Stack.IsSound`, `isSound_feed` — what the parser keeps on its stack, step by step;
* `derive_isSound` — the derivation of a text is sound.

A reduction compares the symbols that it takes from the stack with the right side of its
production, so most of this holds whatever the table says.  Only the last step relies on it:
the start rule is completed in a state that nothing but a whole program leads to.
-/

open List

/-- A token that was cut from some text, in some context. -/
def Token.IsLexed (t : Token) : Prop :=
  ∃ context place cs rest, lexIn context place cs = some (t, rest)

/-- A derivation by the grammar, of tokens that were cut from a text. -/
structure Derivation.IsSound (d : Derivation) : Prop where
  obeys : d.Obeys Production.IsLegal
  lexed : ∀ t ∈ d.tokens, t.IsLexed

/-! ### The state that accepts -/

/-- Whether the start rule is completed in a state, given by number. -/
def Automaton.completesStart (state : Nat) : Bool :=
  match states[state]? with
  | some st => st.reductions.any fun r => r.lhs = .rule .start
  | none => false

/-- No token leads to where the start rule is completed, and no phrase but a program. -/
theorem Automaton.completesStart_transitions : (states.all fun st =>
    st.shifts.all (fun m => !completesStart m.2) &&
      st.gotos.all fun m => m.1 = .rule .program || !completesStart m.2) = true := by
  decide +kernel

variable {state target : Nat} {a : Lookahead} {p : Production}

theorem Automaton.not_completesStart_of_shift
    (h : action? state a = some (.shift target)) : completesStart target = false := by
  obtain ⟨st, hst, hact⟩ := Option.bind_eq_some_iff.mp h
  have htable := all_eq_true.mp completesStart_transitions st (mem_of_getElem? hst)
  simp only [Bool.and_eq_true, all_eq_true, Bool.not_eq_true'] at htable
  unfold State.action? at hact
  split at hact
  · rename_i found hlookup
    obtain ⟨t, -, ht⟩ := Option.bind_eq_some_iff.mp hlookup
    have htarget : found = target := by simpa using hact
    exact htable.1 (t, target) (mem_of_lookup (htarget ▸ ht))
  · simp at hact

theorem Automaton.eq_program_of_goto {n : Nonterminal}
    (h : goto? state n = some target) (hstart : completesStart target = true) :
    n = .rule .program := by
  obtain ⟨st, hst, hgoto⟩ := Option.bind_eq_some_iff.mp h
  have htable := all_eq_true.mp completesStart_transitions st (mem_of_getElem? hst)
  simp only [Bool.and_eq_true, all_eq_true, Bool.or_eq_true, decide_eq_true_eq] at htable
  have hn := htable.2 (n, target) (mem_of_lookup hgoto)
  simpa [hstart] using hn

theorem Automaton.completesStart_of_reduce {r : Reduction} (h : action? state a = some (.reduce r))
    (hp : r.production? = some p)
    (hstart : p.lhs = .rule .start) : completesStart state = true := by
  obtain ⟨st, hst, hact⟩ := Option.bind_eq_some_iff.mp h
  have hr : r ∈ st.reductions := by
    unfold State.action? at hact
    split at hact
    · simp at hact
    · obtain ⟨q, hq, hqr⟩ := Option.map_eq_some_iff.mp hact
      obtain rfl : q = r := by simpa using hqr
      exact mem_of_find?_eq_some hq
  have hlhs : r.lhs = .rule .start := by
    obtain ⟨rhs, -, rfl⟩ := mem_map.mp (mem_of_getElem? hp)
    exact hstart
  simp only [completesStart, hst, any_eq_true, decide_eq_true_eq]
  exact ⟨r, hr, hlhs⟩

/-! ### What the stack holds -/

/-- What the stack holds: sound derivations, and a program wherever the start rule is
    completed. -/
def Stack.IsSound (stack : Stack) : Prop :=
  ∀ f ∈ stack, f.derivation.IsSound ∧
    (completesStart f.state = true → f.derivation.symbol = .nonterminal (.rule .program))

theorem Derivation.isSound_node {ds : List Derivation} (hp : p.IsLegal)
    (hsymbols : ds.map symbol = p.rhs) (h : ∀ d ∈ ds, d.IsSound) : (node p ds).IsSound where
  obeys := obeys_node.mpr ⟨hp, hsymbols, fun d hd => (h d hd).obeys⟩
  lexed t ht := by
    obtain ⟨d, hd, ht⟩ := mem_tokensAll.mp ht
    exact (h d hd).lexed t ht

theorem Stack.isSound_reduce {stack next : Stack} (hp : p.IsLegal)
    (h : stack.reduce? p = some next) (hstack : stack.IsSound) : next.IsSound := by
  obtain ⟨target, hgoto, hsymbols, rfl⟩ := Stack.reduce?_eq_some h
  intro f hf
  rcases mem_cons.mp hf with rfl | hf
  · refine ⟨Derivation.isSound_node hp hsymbols ?_, fun hstart => ?_⟩
    · intro d hd
      obtain ⟨g, hg, rfl⟩ := mem_map.mp hd
      exact (hstack g (mem_of_mem_take (mem_reverse.mp hg))).1
    · rw [Derivation.symbol, eq_program_of_goto hgoto hstart]
  · exact hstack f (mem_of_mem_drop hf)

/-- What feeding a sound stack comes to. -/
def Feeding.IsSound : Feeding → Prop
  | .shift target stack => stack.IsSound ∧ completesStart target = false
  | .accept d => d.IsSound ∧ d.symbol = .nonterminal (.rule .start)
  | .stuck _ => True

theorem isSound_reduceAll (a : Lookahead) :
    ∀ (fuel : Nat) (stack : Stack), stack.IsSound → (reduceAll a fuel stack).IsSound
  | 0, _, _ => trivial
  | fuel + 1, stack, hstack => by
    rw [reduceAll]
    split
    · trivial
    · rename_i target hact
      exact ⟨hstack, not_completesStart_of_shift hact⟩
    · rename_i r hact
      split
      · trivial
      · rename_i p hp
        have hlegal : p.IsLegal := r.rhs_mem_expansions hp
        split
        · rename_i hstart
          split
          · rename_i f
            obtain ⟨hf, hprogram⟩ := hstack f mem_cons_self
            have hsymbol := hprogram (completesStart_of_reduce hact hp hstart)
            have hrhs : p.rhs = [.nonterminal (.rule .program)] := by
              rw [Production.IsLegal, hstart] at hlegal
              simpa [Nonterminal.expansions, Rule.phrase, Phrase.expansions] using hlegal
            refine ⟨Derivation.isSound_node hlegal ?_ ?_, by rw [Derivation.symbol, hstart]⟩
            · simp only [map_cons, map_nil, hsymbol, hrhs]
            · simpa using hf
          · trivial
        · split
          · rename_i next hnext
            exact isSound_reduceAll a fuel next (Stack.isSound_reduce hlegal hnext hstack)
          · trivial

theorem isSound_deriveFrom :
    ∀ (fuel : Nat) (stack : Stack) (last place : Place) (cs : List Char) {d : Derivation},
      stack.IsSound → deriveFrom fuel stack last place cs = .ok d →
        d.IsSound ∧ d.symbol = .nonterminal (.rule .start)
  | 0, _, _, _, _, _, _, h => by simp [deriveFrom] at h
  | fuel + 1, stack, last, place, cs, d, hstack, h => by
    rw [deriveFrom] at h
    split at h
    · have hfeed := isSound_reduceAll none (reductionLimit stack) stack hstack
      rw [← feed] at hfeed
      split at h
      · rename_i e haccept
        rw [haccept] at hfeed
        obtain rfl : e = d := by simpa using h
        exact hfeed
      · simp at h
      · simp at h
    · split at h
      · rename_i token rest hlex
        have hfeed := isSound_reduceAll (some token.kind) (reductionLimit stack) stack hstack
        rw [← feed] at hfeed
        split at h
        · rename_i target below hshift
          rw [hshift] at hfeed
          refine isSound_deriveFrom fuel _ _ _ _ ?_ h
          intro f hf
          rcases mem_cons.mp hf with rfl | hf
          · refine ⟨⟨trivial, ?_⟩, fun hstart => ?_⟩
            · simpa [Derivation.tokens] using ⟨_, _, _, _, hlex⟩
            · simp [hfeed.2] at hstart
          · exact hfeed.1 f hf
        · simp at h
        · simp at h
      · split at h <;> simp at h

/-- **The derivation of a text is one by the grammar**, of tokens that were cut from a text. -/
theorem derive_isSound {cs : List Char} {d : Derivation} (h : derive cs = .ok d) :
    d.IsSound ∧ d.symbol = .nonterminal (.rule .start) :=
  isSound_deriveFrom _ [] _ _ cs (by simp [Stack.IsSound]) h

end Ordo
