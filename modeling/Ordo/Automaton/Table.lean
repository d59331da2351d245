import Ordo.Automaton.States

namespace Ordo.Automaton

/-!
# The parsing table

What the automaton does in a state, looked up by number.

* `Action` — to shift a token or to reduce a completed production;
* `action?` — the action of a state on a lookahead;
* `goto?` — the state that a completed phrase leads to;
* `takes` — whether a state has an action for a token;
* `isSome_production?`, `target_lt_length` — the table names only productions and states that
  exist.

Where both a shift and a reduction are possible, the shift wins, so that an `else` belongs to
the nearest `if`.
-/

/-- The production that a reduction completes. -/
def Reduction.production? (r : Reduction) : Option Production := r.lhs.productions[r.choice]?

/-- What to do on a token. -/
inductive Action
  | shift (target : Nat)
  | reduce (r : Reduction)

/-- The action of a state on a lookahead. -/
def State.action? (s : State) (a : Lookahead) : Option Action :=
  match a.bind fun t => s.shifts.lookup t with
  | some target => some (.shift target)
  | none => (s.reductions.find? fun r => r.before.admits a).map .reduce

/-- The action of a state, given by number, on a lookahead. -/
def action? (state : Nat) (a : Lookahead) : Option Action :=
  states[state]?.bind fun s => s.action? a

/-- The state after a phrase was completed on top of a state. -/
def goto? (state : Nat) (n : Nonterminal) : Option Nat :=
  states[state]?.bind fun s => s.gotos.lookup n

/-- Whether a state has an action for a terminal. -/
def takes (state : Nat) (t : Terminal) : Bool := (action? state (some t)).isSome

/-! ### The table and the grammar -/

/-- Every reduction names a production of the grammar. -/
theorem isSome_production? : ∀ s ∈ states, ∀ r ∈ s.reductions, r.production?.isSome = true := by
  decide +kernel

/-- Every token and every phrase leads to a state. -/
theorem target_lt_length : ∀ s ∈ states,
      (∀ m ∈ s.shifts, m.2 < states.length) ∧ ∀ m ∈ s.gotos, m.2 < states.length := by
  decide +kernel

end Ordo.Automaton
