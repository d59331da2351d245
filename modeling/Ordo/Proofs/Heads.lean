import Ordo.Proofs.Values

namespace Ordo

open Automaton Derivation

/-!
# Names that spell reserved words

A word is read as a name unless the state of the parser also takes it as a reserved word.  So a
reserved word can be a name, but only where the reserved word itself could not stand.

* `Token.Spells`, `not_context_of_lexIn` — a name that spells a reserved word is read in a state
  that does not take the word;
* `Nonterminal.follow`, `takes_of_reduce` — the reductions before a name keep it so;
* `Stack.KeepsWords`, `keepsWords_reduceAll` — what the parser keeps on its stack, step by step;
* `Automaton.Bars` — a word that can stand wherever a phrase can;
* `derive_isGuarded` — no phrase of a text starts with a name that spells a word it is barred by.
-/

open Option

/-! ### Reading a name -/

/-- A token has the text of a reserved word. -/
def Token.Spells (t : Token) (w : Terminal) : Prop :=
  w.isReserved = true ∧ w.spelling? = some t.text

variable {w : Terminal} {s : String} {context : Terminal → Bool} {ds : List Derivation}
  {p : Production} {stack : Stack}

theorem Terminal.lookup_reserved (hw : w.isReserved = true)
    (hs : w.spelling? = some s) : Terminal.reserved.lookup s.toList = some w := by
  cases w <;> first | exact absurd hw (by decide) | (obtain rfl := Option.some.inj hs; decide)

theorem not_context_of_wordKind {kind : Terminal}
    (h : wordKind context kind s.toList = .cname) (hw : w.isReserved = true)
    (hs : w.spelling? = some s) : context w = false := by
  unfold wordKind at h
  split at h
  · rw [Terminal.lookup_reserved hw hs] at h
    cases hcontext : context w with
    | false => rfl
    | true =>
      obtain rfl : w = .cname := by simpa [hcontext] using h
      exact absurd hw (by decide)
  · rename_i hne
    exact absurd h hne

/-- **A name that spells a reserved word** is read where the word cannot stand. -/
theorem not_context_of_lexIn {place : Place} {cs rest : List Char}
    {t : Token} (h : lexIn context place cs = some (t, rest))
    (hname : t.kind = .cname) (hw : t.Spells w) : context w = false := by
  unfold lexIn at h
  obtain ⟨kind, -, h⟩ := List.exists_of_findSome?_eq_some h
  split at h
  · obtain ⟨⟨lexeme, rest'⟩, -, htoken⟩ := map_eq_some_iff.mp h
    obtain ⟨rfl, rfl⟩ := Prod.mk.inj htoken
    have hkind : wordKind context kind (String.ofList lexeme).toList = .cname := by
      rw [String.toList_ofList]
      exact hname
    exact not_context_of_wordKind hkind hw.1 hw.2
  · exact absurd h (by simp)

/-! ### Reductions before a name -/

/-- What may come after a nonterminal that a name may come after. -/
def Nonterminal.follow : Nonterminal → List Terminal
  | .rule .classDefinition | .rule .subroutineDefinition | .many .classes | .many .subroutines =>
      beforeDefinition
  | .many .statements => afterStatements
  | .rule .statement | .rule .forLoop | .rule .whileLoop | .rule .repeatLoop
  | .rule .ifStatement | .rule .block | .rule .comment => afterStatement
  | .rule .declaration | .rule .arrayDeclaration | .rule .objectDeclaration | .rule .assignment
  | .rule .callStatement | .rule .returnStatement => afterSimple
  | .rule .expression | .rule .logicalOr => afterExpression
  | .many .disjuncts | .rule .logicalAnd => afterConjunction
  | .many .conjuncts | .rule .logicalNot | .rule .comparison => afterNegation
  | .many .comparisons | .rule .arithmetic => afterComparand
  | .many .summands | .rule .term => afterTerm
  | .many .multiplicands | .rule .factor | .rule .power => afterFactor
  | .many .exponents | .rule .atom | .rule .length | .rule .ceiling | .rule .floor
  | .rule .functionCall | .rule .designator => afterAtom
  | .many .indices => afterIndex
  | .rule .compOp => operandStart
  | _ => []

/-- The reserved words. -/
def Terminal.words : List Terminal := Terminal.all.filter Terminal.isReserved

theorem Terminal.mem_words (h : w.isReserved = true) : w ∈ Terminal.words := by
  cases w <;> first | exact absurd h (by decide) | decide

namespace Automaton

/-- Whether a state has an action for a terminal. -/
def State.takes (st : State) (t : Terminal) : Bool := (st.action? (some t)).isSome

/-- Whether the words of the state that a nonterminal leads to may follow it, if the state takes
    a name. -/
def followsGoto (g : Nonterminal × Nat) : Bool :=
  match states[g.2]? with
  | some next =>
      !next.takes .cname || Terminal.words.all fun w => !next.takes w || g.1.follow.contains w
  | none => true

/-- Whether a state that reduces before a name takes all words that may follow what it reduces
    to. -/
def State.takesFollow (st : State) : Bool :=
  match st.action? (some .cname) with
  | some (.reduce r) => r.lhs.follow.all fun t => !t.isReserved || st.takes t
  | _ => true

theorem followsGoto_states : (states.all fun st => st.gotos.all followsGoto) = true := by
  decide +kernel

theorem takesFollow_states : states.all State.takesFollow = true := by
  decide +kernel

theorem takes_eq {s : Nat} {st : State} (h : states[s]? = some st) (t : Terminal) :
    takes s t = st.takes t := by
  rw [takes, action?, h, bind_some, State.takes]

variable {w : Terminal}

/-- **A reduction before a name** leads to a state that takes no further words. -/
theorem takes_of_reduce {q s next : Nat} {r : Reduction}
    (hact : action? q (some .cname) = some (.reduce r)) (hgoto : goto? s r.lhs = some next)
    (hname : takes next .cname = true) (hw : w.isReserved = true) (hnext : takes next w = true) :
    takes q w = true := by
  obtain ⟨st, hst, hact⟩ := bind_eq_some_iff.mp hact
  obtain ⟨below, hbelow, hgoto⟩ := bind_eq_some_iff.mp hgoto
  have hfollow : w ∈ r.lhs.follow := by
    have hall := List.all_eq_true.mp followsGoto_states below (List.mem_of_getElem? hbelow)
    have htarget := List.all_eq_true.mp hall _ (mem_of_lookup hgoto)
    cases hstate : states[next]? with
    | none => simp [takes, action?, hstate] at hname
    | some st' =>
      rw [takes_eq hstate] at hname hnext
      simp only [followsGoto, hstate, hname, Bool.not_true, Bool.false_or,
        List.all_eq_true] at htarget
      simpa [hnext] using htarget w (Terminal.mem_words hw)
  have htakes := List.all_eq_true.mp takesFollow_states st (List.mem_of_getElem? hst)
  simp only [State.takesFollow, hact, List.all_eq_true] at htakes
  rw [takes_eq hst]
  simpa [hw] using htakes w hfollow

/-- A word can stand wherever a phrase of a nonterminal inside a text can. -/
def Bars (n : Nonterminal) (w : Terminal) : Prop :=
  n ≠ .rule .start ∧ ∀ s next, goto? s n = some next → takes s w = true

/-- Whether a word can stand wherever a phrase can, by the table. -/
def bars (n : Nonterminal) (w : Terminal) : Bool :=
  n ≠ .rule .start && states.all fun st => (st.gotos.lookup n).isNone || st.takes w

theorem bars_of_table {n : Nonterminal} (h : bars n w = true) : Bars n w := by
  obtain ⟨hstart, htable⟩ := Bool.and_eq_true_iff.mp h
  refine ⟨by simpa using hstart, fun s next hgoto => ?_⟩
  obtain ⟨st, hst, hgoto⟩ := bind_eq_some_iff.mp hgoto
  have hst' := List.all_eq_true.mp htable st (List.mem_of_getElem? hst)
  rw [takes_eq hst]
  simpa [hgoto] using hst'

end Automaton

/-! ### First tokens -/

mutual

/-- The first token of a derivation. -/
def Derivation.head? : Derivation → Option Token
  | .leaf t => some t
  | .node _ ds => firstHead? ds

/-- The first token of the first of several derivations. -/
def Derivation.firstHead? : List Derivation → Option Token
  | [] => none
  | d :: _ => d.head?

end

/-- A derivation starts with a name that spells a reserved word. -/
def Derivation.StartsWithWord (d : Derivation) (w : Terminal) : Prop :=
  ∃ t, d.head? = some t ∧ t.kind = .cname ∧ t.Spells w

/-- No part of a derivation starts with a name that spells a word it is barred by. -/
def Derivation.IsGuarded (d : Derivation) : Prop :=
  ∀ c ∈ d.parts, ∀ p ds, c = .node p ds → ∀ w, Bars p.lhs w → ¬c.StartsWithWord w

theorem Derivation.isGuarded_leaf (t : Token) : (leaf t).IsGuarded := by
  intro c hc p ds hnode
  obtain rfl : c = .leaf t := by simpa [parts] using hc
  exact absurd hnode (by simp)

theorem Derivation.mem_partsAll_iff {c : Derivation} : c ∈ partsAll ds ↔ ∃ d ∈ ds, c ∈ d.parts := by
  induction ds with
  | nil => simp [partsAll]
  | cons d ds ih => simp [partsAll, ih]

theorem Derivation.isGuarded_node (hhead : ∀ w, Bars p.lhs w → ¬(node p ds).StartsWithWord w)
    (hds : ∀ d ∈ ds, d.IsGuarded) : (node p ds).IsGuarded := by
  intro c hc
  rw [parts, List.mem_cons] at hc
  rcases hc with rfl | hc
  · rintro q es hnode
    obtain ⟨rfl, rfl⟩ := node.inj hnode
    exact hhead
  · obtain ⟨d, hd, hc⟩ := mem_partsAll_iff.mp hc
    exact hds d hd c hc

/-! ### What the stack holds -/

/-- Every phrase on the stack that starts with a name spelling a reserved word stands on a state
    that does not take the word. -/
def Stack.KeepsWords : Stack → Prop
  | [] => True
  | f :: below =>
      (∀ w, f.derivation.StartsWithWord w → takes (Stack.state below) w = false)
        ∧ f.derivation.IsGuarded ∧ Stack.KeepsWords below

theorem Stack.KeepsWords.of_append {front below : Stack} (h : Stack.KeepsWords (front ++ below)) :
    below.KeepsWords := by
  induction front with
  | nil => exact h
  | cons f front ih => exact ih h.2.2

theorem Stack.KeepsWords.isGuarded (h : stack.KeepsWords) :
    ∀ f ∈ stack, f.derivation.IsGuarded := by
  induction stack with
  | nil => simp
  | cons f below ih => exact List.forall_mem_cons.mpr ⟨h.2.1, ih h.2.2⟩

/-- A reduction keeps the first token of what it takes from the stack, and the state below. -/
theorem Stack.keepsWords_reduce {next : Stack} (hp : p.IsLegal)
    (h : stack.reduce? p = some next) (hstack : stack.KeepsWords) : next.KeepsWords := by
  obtain ⟨target, hgoto, hsymbols, rfl⟩ := Stack.reduce?_eq_some h
  have hne : p.rhs ≠ [] := (p.lhs.expansion_climbs p.rhs hp).1
  -- the first part of the new phrase lies lowest
  obtain htake | ⟨front, g, htake⟩ := List.eq_nil_or_concat (stack.take p.rhs.length)
  · rw [htake] at hsymbols
    exact absurd hsymbols.symm hne
  rw [List.concat_eq_append] at htake
  have hsplit : stack = front ++ g :: stack.drop p.rhs.length := by
    rw [← List.singleton_append, ← List.append_assoc, ← htake, List.take_append_drop]
  have hg : Stack.KeepsWords (g :: stack.drop p.rhs.length) := by
    rw [hsplit] at hstack
    exact hstack.of_append
  have hguarded : ∀ d ∈ (stack.take p.rhs.length).reverse.map (·.derivation), d.IsGuarded := by
    intro d hd
    obtain ⟨f, hf, rfl⟩ := List.mem_map.mp hd
    exact hstack.isGuarded f (List.mem_of_mem_take (List.mem_reverse.mp hf))
  have hhead : ∀ w, (node p
      ((stack.take p.rhs.length).reverse.map (·.derivation))).StartsWithWord w →
        takes (Stack.state (stack.drop p.rhs.length)) w = false := by
    intro w hw
    apply hg.1 w
    simpa [htake, StartsWithWord, head?, firstHead?] using hw
  refine ⟨hhead, isGuarded_node (fun w hbars hw => ?_) hguarded, hg.2.2⟩
  exact absurd (hbars.2 _ _ hgoto) (by simp [hhead w hw])

/-- What feeding a stack comes to. -/
def Feeding.KeepsWords : Feeding → Prop
  | .shift _ stack => stack.KeepsWords
  | .accept d => d.IsGuarded
  | .stuck _ => True

theorem keepsWords_reduceAll (a : Lookahead) :
    ∀ (fuel : Nat) (stack : Stack), stack.KeepsWords → (reduceAll a fuel stack).KeepsWords
  | 0, _, _ => trivial
  | fuel + 1, stack, hstack => by
    rw [reduceAll]
    split
    · trivial
    · exact hstack
    · rename_i r hact
      split
      · trivial
      · rename_i p hp
        have hlegal : p.IsLegal := r.rhs_mem_expansions hp
        split
        · rename_i hstart
          split
          · rename_i f
            refine isGuarded_node (fun w hbars => absurd hstart hbars.1) ?_
            simpa using hstack.2.1
          · trivial
        · split
          · rename_i next hnext
            exact keepsWords_reduceAll a fuel next (Stack.keepsWords_reduce hlegal hnext hstack)
          · trivial

theorem takes_of_reduceAll {a : Lookahead} {fuel : Nat} {stack' : Stack} {target : Nat}
    (h : reduceAll a fuel stack = .shift target stack') :
    (action? stack.state a).isSome = true := by
  cases fuel with
  | zero => cases h
  | succ fuel =>
    rw [reduceAll] at h
    cases hact : action? stack.state a with
    | none => simp [hact] at h
    | some act => rfl

/-- A word that is not taken where a name is read is not taken where the name is shifted. -/
theorem not_takes_of_reduceAll {w : Terminal} (hw : w.isReserved = true) :
    ∀ (fuel : Nat) {stack stack' : Stack} {target : Nat},
      reduceAll (some .cname) fuel stack = .shift target stack' →
        takes stack.state w = false → takes stack'.state w = false
  | 0, _, _, _, h, _ => by cases h
  | fuel + 1, stack, stack', target, h, hstack => by
    rw [reduceAll] at h
    split at h
    · cases h
    · obtain ⟨-, rfl⟩ := Feeding.shift.inj h
      exact hstack
    · rename_i r hact
      split at h
      · cases h
      · rename_i p hp
        split at h
        · split at h <;> cases h
        · split at h
          · rename_i next hnext
            refine not_takes_of_reduceAll hw fuel h ?_
            obtain ⟨goal, hgoto, -, rfl⟩ := Stack.reduce?_eq_some hnext
            have hlhs : p.lhs = r.lhs := by
              obtain ⟨rhs, -, rfl⟩ := List.mem_map.mp (List.mem_of_getElem? hp)
              rfl
            rw [hlhs] at hgoto
            have hname : takes goal .cname = true := takes_of_reduceAll h
            have hkeeps := takes_of_reduce hact hgoto hname hw
            rw [hstack] at hkeeps
            show takes goal w = false
            simpa using hkeeps
          · cases h

theorem keepsWords_deriveFrom :
    ∀ (fuel : Nat) (stack : Stack) (last place : Place) (cs : List Char) {d : Derivation},
      stack.KeepsWords → deriveFrom fuel stack last place cs = .ok d → d.IsGuarded
  | 0, _, _, _, _, _, _, h => by simp [deriveFrom] at h
  | fuel + 1, stack, last, place, cs, d, hstack, h => by
    rw [deriveFrom] at h
    split at h
    · have hfeed := keepsWords_reduceAll none (reductionLimit stack) stack hstack
      rw [← feed] at hfeed
      split at h
      · rename_i e haccept
        rw [haccept] at hfeed
        obtain rfl : e = d := by simpa using h
        exact hfeed
      · simp at h
      · simp at h
    · split at h
      · rename_i token rest hlex
        have hfeed := keepsWords_reduceAll (some token.kind) (reductionLimit stack) stack hstack
        rw [← feed] at hfeed
        split at h
        · rename_i target below hshift
          rw [hshift] at hfeed
          have hnext : Stack.KeepsWords (⟨target, .leaf token⟩ :: below) := by
            refine ⟨fun w hw => ?_, isGuarded_leaf token, hfeed⟩
            obtain ⟨t, ht, hname, hspells⟩ := hw
            obtain rfl : token = t := by simpa [head?] using ht
            rw [feed, hname] at hshift
            exact not_takes_of_reduceAll hspells.1 _ hshift
              (not_context_of_lexIn hlex hname hspells)
          exact keepsWords_deriveFrom fuel _ _ _ _ hnext h
        · simp at h
        · simp at h
      · split at h <;> simp at h

/-- **No phrase starts with a word it is barred by**: where the word could stand, it is not read
    as a name. -/
theorem derive_isGuarded {cs : List Char} {d : Derivation} (h : derive cs = .ok d) : d.IsGuarded :=
  keepsWords_deriveFrom _ [] _ _ cs trivial h

end Ordo
