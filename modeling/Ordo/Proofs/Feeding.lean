import Ordo.Syntax.Parser

namespace Ordo

open Automaton

/-!
# Feeding a token takes finitely many reductions

`feed` reduces with a budget, `reductionLimit`, so that it is total.  The budget never runs
out: a reduction of two symbols or more makes the stack shorter, and a reduction of a single
symbol climbs to a nonterminal that stands higher.  Both make the *potential* of the stack
smaller, and the potential of a stack is below its budget.

* `Nonterminal.height` — how far a nonterminal stands above the tokens by productions of a
  single symbol;
* `Stack.potential`, `potential_reduce_lt` — the measure, and that every reduction lowers it;
* `feed_eq` — feeding without a budget: one action, then feeding again after a reduction;
* `feed_endsWith` — what every reduction keeps, feeding keeps.
-/

open List

/-! ### Heights -/

/-- How far a nonterminal stands above the tokens by productions of a single symbol. -/
def Nonterminal.height : Nonterminal → Nat
  | .rule .designator | .rule .compOp | .rule .comment => 1
  | .rule .atom => 2
  | .rule .power => 3
  | .rule .factor => 4
  | .rule .term => 5
  | .rule .arithmetic => 6
  | .rule .comparison => 7
  | .rule .logicalNot => 8
  | .rule .logicalAnd => 9
  | .rule .logicalOr => 10
  | .rule .expression => 11
  | .rule .argumentList | .rule .condition => 12
  | .rule .declaration => 1
  | .rule .statement => 2
  | .rule .block | .many .statements => 3
  | .rule .simpleParameter => 1
  | .rule .parameter => 2
  | .rule .parameterList => 3
  | .many .names => 1
  | .rule .attributeList => 2
  | .many .classes | .many .subroutines | .rule .algorithm => 1
  | .rule .program => 2
  | .rule .start => 3
  | _ => 0

/-- The height of a symbol; tokens are at the bottom. -/
def Symbol.height : Symbol → Nat
  | .terminal _ => 0
  | .nonterminal n => n.height

theorem Nonterminal.height_le_count (n : Nonterminal) : n.height ≤ Nonterminal.count := by
  cases n with
  | rule r => cases r <;> decide
  | many r => cases r <;> decide

theorem Symbol.height_le_count (x : Symbol) : x.height ≤ Nonterminal.count := by
  cases x with
  | terminal t => exact Nat.zero_le _
  | nonterminal n => exact n.height_le_count

/-- No production is empty, and one of a single symbol climbs. -/
theorem Nonterminal.expansion_climbs (n : Nonterminal) :
    ∀ rhs ∈ n.expansions, rhs ≠ [] ∧ ∀ x ∈ rhs, rhs.length = 1 → x.height < n.height := by
  cases n with
  | rule r => cases r <;> decide
  | many r => cases r <;> decide

/-- What is found in a list of pairs is in it. -/
theorem Automaton.mem_of_lookup {α β : Type} [BEq α] [LawfulBEq α] {l : List (α × β)} {k : α}
    {b : β} (h : l.lookup k = some b) : (k, b) ∈ l := by
  obtain ⟨l₁, l₂, rfl, -⟩ := lookup_eq_some_iff.mp h
  simp

variable {r : Reduction} {p : Production} {next stack : Stack} {a : Lookahead} {target : Nat}

/-- A production that a reduction names is one of its nonterminal. -/
theorem Automaton.Reduction.rhs_mem_expansions
    (h : r.production? = some p) : p.rhs ∈ p.lhs.expansions := by
  have hmem : p ∈ r.lhs.productions := mem_of_getElem? h
  obtain ⟨rhs, hrhs, rfl⟩ := mem_map.mp hmem
  exact hrhs

/-! ### The potential of a stack -/

/-- A bound on the reductions that a stack can still go through before the next token. -/
def Stack.potential : Stack → Nat
  | [] => 0
  | f :: below =>
      (below.length + 1) * (Nonterminal.count + 1)
        + (Nonterminal.count - f.derivation.symbol.height)

theorem Stack.potential_lt_reductionLimit (stack : Stack) :
    stack.potential < reductionLimit stack := by
  cases stack with
  | nil => decide
  | cons f below =>
    simp only [potential, reductionLimit, length_cons, Nonterminal.count]
    omega

/-- What a reduction leaves: the production over the symbols it took, on what lay below. -/
theorem Stack.reduce?_eq_some (h : stack.reduce? p = some next) :
    ∃ target, goto? (Stack.state (stack.drop p.rhs.length)) p.lhs = some target ∧
      ((stack.take p.rhs.length).reverse.map (·.derivation)).map Derivation.symbol = p.rhs ∧
      next = ⟨target, .node p ((stack.take p.rhs.length).reverse.map (·.derivation))⟩
        :: stack.drop p.rhs.length := by
  simp only [Stack.reduce?] at h
  split at h
  · rename_i hrhs
    obtain ⟨target, hgoto, hnext⟩ := Option.map_eq_some_iff.mp h
    exact ⟨target, hgoto, hrhs, hnext.symm⟩
  · exact absurd h (by simp)

/-- Every reduction lowers the potential. -/
theorem Stack.potential_reduce_lt
    (hp : p.rhs ∈ p.lhs.expansions) (h : stack.reduce? p = some next) :
    next.potential < stack.potential := by
  obtain ⟨target, -, hrhs, rfl⟩ := Stack.reduce?_eq_some h
  obtain ⟨hne, hclimb⟩ := p.lhs.expansion_climbs p.rhs hp
  have hlen : p.rhs.length ≤ stack.length := by
    have := congrArg List.length hrhs
    simp only [length_map, length_reverse, length_take] at this
    omega
  have hpos : 0 < p.rhs.length := length_pos_iff.mpr hne
  cases stack with
  | nil => simp only [length_nil] at hlen; omega
  | cons f below =>
    have hf := f.derivation.symbol.height_le_count
    have hl := p.lhs.height_le_count
    have hnode : ∀ ds, (Derivation.node p ds).symbol.height = p.lhs.height := fun _ => rfl
    simp only [potential, length_drop, hnode, Nonterminal.count, length_cons]
      at hlen hf hl ⊢
    by_cases hone : p.rhs.length = 1
    · -- a single symbol: the stack keeps its length, and its top climbs
      have htop : [f.derivation.symbol] = p.rhs := by simpa [hone] using hrhs
      have hlt := hclimb f.derivation.symbol (by simp [← htop]) hone
      omega
    · omega

/-! ### Feeding without a budget -/

/-- One action of the automaton on a lookahead, and then whatever `resume` makes of the stack
    after a reduction. -/
def feedStep (a : Lookahead) (resume : Stack → Feeding) (stack : Stack) : Feeding :=
  match action? stack.state a with
  | none => .stuck stack
  | some (.shift target) => .shift target stack
  | some (.reduce r) =>
      match r.production? with
      | none => .stuck stack
      | some p =>
          if p.lhs = .rule .start then
            match stack with
            | [f] => .accept (.node p [f.derivation])
            | _ => .stuck stack
          else
            match stack.reduce? p with
            | some next => resume next
            | none => .stuck stack

theorem reduceAll_succ (a : Lookahead) (fuel : Nat) (stack : Stack) :
    reduceAll a (fuel + 1) stack = feedStep a (reduceAll a fuel) stack := rfl

/-- What comes of one action depends on `resume` only where the potential is lower. -/
theorem feedStep_congr {k₁ k₂ : Stack → Feeding}
    (h : ∀ next, Stack.potential next < Stack.potential stack → k₁ next = k₂ next) :
    feedStep a k₁ stack = feedStep a k₂ stack := by
  unfold feedStep
  cases action? stack.state a with
  | none => rfl
  | some act =>
    cases act with
    | shift target => rfl
    | reduce r =>
      cases hp : r.production? with
      | none => simp only [hp]
      | some p =>
        simp only [hp]
        by_cases hstart : p.lhs = .rule .start
        · rw [if_pos hstart, if_pos hstart]
        · rw [if_neg hstart, if_neg hstart]
          cases hnext : stack.reduce? p with
          | none => rfl
          | some next =>
            exact h next (Stack.potential_reduce_lt (Reduction.rhs_mem_expansions hp) hnext)

/-- Two budgets above the potential give the same result. -/
theorem reduceAll_budget (a : Lookahead) :
    ∀ (m n : Nat) (stack : Stack), stack.potential < m → stack.potential < n →
      reduceAll a m stack = reduceAll a n stack
  | 0, _, _, h, _ => absurd h (Nat.not_lt_zero _)
  | _ + 1, 0, _, _, h => absurd h (Nat.not_lt_zero _)
  | m + 1, n + 1, stack, hm, hn => by
    rw [reduceAll_succ, reduceAll_succ]
    exact feedStep_congr fun next hnext =>
      reduceAll_budget a m n next (by omega) (by omega)

/-- **Feeding, one action at a time.** -/
theorem feed_eq (a : Lookahead) (stack : Stack) : feed a stack = feedStep a (feed a) stack := by
  have hlimit := stack.potential_lt_reductionLimit
  obtain ⟨m, hm⟩ : ∃ m, reductionLimit stack = m + 1 := ⟨reductionLimit stack - 1, by omega⟩
  rw [feed, hm, reduceAll_succ]
  refine feedStep_congr fun next hnext => ?_
  exact reduceAll_budget a m _ next (by omega) next.potential_lt_reductionLimit

theorem feed_of_shift
    (h : action? stack.state a = some (.shift target)) : feed a stack = .shift target stack := by
  rw [feed_eq, feedStep, h]

theorem feed_of_reduce (h : action? stack.state a = some (.reduce r)) (hp : r.production? = some p)
    (hstart : p.lhs ≠ .rule .start) (hnext : stack.reduce? p = some next) :
    feed a stack = feed a next := by
  rw [feed_eq, feedStep, h]
  simp only [hp, if_neg hstart, hnext]

/-- What comes of feeding a stack with a property: a shift on a stack with that property, or the
    acceptance of its only derivation. -/
def Feeding.EndsWith (P : Stack → Prop) (a : Lookahead) : Feeding → Prop
  | .shift target below => P below ∧ action? below.state a = some (.shift target)
  | .accept d => ∃ f p, P [f] ∧ p.lhs = .rule .start ∧ d = .node p [f.derivation]
  | .stuck _ => True

/-- **What every reduction keeps, feeding keeps.** -/
theorem feed_endsWith {P : Stack → Prop}
    (hreduce : ∀ {stack next : Stack} {r : Reduction} {p : Production}, P stack →
      action? stack.state a = some (.reduce r) → r.production? = some p →
      stack.reduce? p = some next → P next) (h : P stack) : (feed a stack).EndsWith P a := by
  unfold feed
  induction reductionLimit stack generalizing stack with
  | zero => trivial
  | succ fuel ih =>
    rw [reduceAll_succ, feedStep]
    split
    · trivial
    · rename_i target hact
      exact ⟨h, hact⟩
    · rename_i r hact
      split
      · trivial
      · rename_i p hp
        split
        · rename_i hstart
          split
          · rename_i f
            exact ⟨f, p, h, hstart, rfl⟩
          · trivial
        · split
          · rename_i next hnext
            exact ih (hreduce h hact hp hnext)
          · trivial

/-- A stack that a lookahead can be fed to has an action for it. -/
theorem isSome_action_of_feed {stack' : Stack}
    (h : feed a stack = .shift target stack') : (action? stack.state a).isSome = true := by
  rw [feed_eq, feedStep] at h
  cases hact : action? stack.state a with
  | none => simp [hact] at h
  | some act => rfl

end Ordo
