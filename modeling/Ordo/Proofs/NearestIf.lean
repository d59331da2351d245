import Ordo.Proofs.Embedding
import Ordo.Proofs.Replacing

namespace Ordo

open Automaton Derivation

/-!
# An `else` belongs to the nearest `if`

The text `if (c₁) then if (c₂) then … if (cₙ) then s else t` could be read in `n` ways by the
grammar.  It is read as nested `if` statements of which only the innermost has an `else`, wherever
an `if` statement can stand, at any depth and for any conditions and assignments.

* `ConditionText`, `AssignmentText` — texts that stand for a condition or an assignment somewhere;
* `IfPlace` — where an `if` statement stands in a program, with an assignment at its end;
* `ifChain`, `nestedIfs` — the text above, and what it is read as;
* `Derivation.ifChain`, `cuts_ifChain` — the derivation of the text, and how the text is cut;
* `Derivation.values_ifChain` — what is built from the derivation;
* `else_belongs_to_nearest_if` — the text in the place of an `if` statement.
-/

open List Option

/-! ### Phrases that may hang -/

/-- The phrases that may end with an `if` without an `else`. -/
def Nonterminal.hanging : List Nonterminal :=
  [.rule .ifStatement, .rule .statement, .rule .block, .rule .forLoop, .rule .whileLoop,
    .many .statements]

/-- Whether a symbol is one of these phrases. -/
def Symbol.isHanging (x : Symbol) : Bool := Nonterminal.hanging.any fun n => x = .nonterminal n

theorem Production.IsLegal.isHanging {p : Production} (hp : p.IsLegal) :
    ∀ x ∈ p.rhs.getLast?, x.isHanging = true → (Symbol.nonterminal p.lhs).isHanging = true := by
  obtain ⟨n, xs⟩ := p
  have hall : (n.expansions.all fun xs => !xs.getLast?.any Symbol.isHanging ||
      (Symbol.nonterminal n).isHanging) = true := by
    cases n with
    | rule r => cases r <;> decide
    | many r => cases r <;> decide
  intro x hlast hx
  have htable := all_eq_true.mp hall xs hp
  simpa [mem_def.mp hlast, hx] using htable

namespace Derivation

/-- A block that is nothing but an assignment, with or without a semicolon. -/
structure IsAssignment (d : Derivation) (v : Value) : Prop where
  exists_eq : ∃ p a more, d = node bareBlock [node p (a :: more)] ∧
    a.symbol = Rule.assignment.symbol ∧ a.values = .ok [v]

variable {d : Derivation} {v : Value}

theorem IsAssignment.symbol_eq (h : d.IsAssignment v) : d.symbol = Rule.block.symbol := by
  obtain ⟨p, a, more, rfl, -⟩ := h.exists_eq
  rfl

/-- An assignment is a statement. -/
theorem IsAssignment.exists_statement (h : d.IsAssignment v)
    (hlegal : d.Obeys Production.IsLegal) : ∃ p a more,
      d = node bareBlock [node p (a :: more)] ∧ p.lhs = .rule .statement ∧
      (a :: more).map symbol ∈ Rule.statement.phrase.expansions ∧
      a.symbol = Rule.assignment.symbol ∧ a.values = .ok [v] := by
  obtain ⟨p, a, more, rfl, ha, hv⟩ := h.exists_eq
  obtain ⟨-, hsymbols, ⟨hmem, hrhs, -⟩, -⟩ := hlegal
  have hp : p.lhs = .rule .statement := by simpa [bareBlock, symbol] using hsymbols
  rw [Production.IsLegal, hp, ← hrhs] at hmem
  exact ⟨p, a, more, rfl, hp, hmem, ha, hv⟩

theorem IsAssignment.hangs_eq_false (h : d.IsAssignment v)
    (hlegal : d.Obeys Production.IsLegal) : d.hangs = false := by
  obtain ⟨p, a, more, rfl, hp, hmem, ha, -⟩ := h.exists_statement hlegal
  rw [← Bool.not_eq_true]
  intro hhangs
  have hlast : lastHangs (a :: more) = true := by
    have hne : p ≠ openIf := by
      rintro rfl
      simp [openIf] at hp
    have hbare : bareBlock ≠ openIf := by decide
    have hnil : lastHangs [node p (a :: more)] = (node p (a :: more)).hangs := rfl
    rw [hangs, hnil, hangs] at hhangs
    simpa [hne, hbare] using hhangs
  rw [lastHangs_eq, Option.any_eq_true] at hlast
  obtain ⟨c, hc, hlast⟩ := hlast
  have hhanging : c.symbol.isHanging = true :=
    symbol_of_hangs rfl (fun _ => Production.IsLegal.isHanging) c
      (obeyAll_iff.mp hlegal.2.2.1.2.2 c (mem_of_getLast? hc)) hlast
  have htable : (Rule.statement.phrase.expansions.all fun xs =>
      xs.head? ≠ some Rule.assignment.symbol || !xs.getLast?.any Symbol.isHanging) = true := by
    decide
  have hends := all_eq_true.mp htable _ hmem
  rw [getLast?_map, hc] at hends
  simp [ha, hhanging] at hends

end Derivation

/-! ### Texts for the parts -/

/-- A text that stands for a condition somewhere, before the parenthesis that closes it. -/
structure ConditionText where
  text : List Char
  value : Value
  derivation : Derivation
  surroundings : Surroundings
  front : List Char
  back : List Char
  stands : Stands surroundings derivation front text (')' :: back)
  symbol_eq : derivation.symbol = Rule.condition.symbol
  values_eq : derivation.values = .ok [value]

/-- A text that stands for an assignment somewhere, as a block of its own and before a space. -/
structure AssignmentText where
  text : List Char
  value : Value
  derivation : Derivation
  surroundings : Surroundings
  front : List Char
  back : List Char
  stands : Stands surroundings derivation front text (' ' :: back)
  isAssignment : derivation.IsAssignment value

/-- Where an `if` statement stands in a program, between `front` and `back`, with an assignment at
    its end. -/
structure IfPlace where
  front : List Char
  head : List Char
  text : List Char
  back : List Char
  surroundings : Surroundings
  production : Production
  left : List Derivation
  last : Derivation
  value : Value
  program : Value
  lhs_eq : production.lhs = .rule .ifStatement
  isAssignment : last.IsAssignment value
  stands : Stands surroundings (.node production (left ++ [last])) front
    ("if ".toList ++ (head ++ text)) back
  stands_last : Stands (surroundings.comp (.node production left .hole [])) last
    (front ++ ("if ".toList ++ head)) text back
  values_eq : (surroundings.fill (.node production (left ++ [last]))).values = .ok [program]

/-! ### States of the parser -/

namespace Automaton

/-- The state after `if`. -/
def ifState : Nat := stepAll 0 [.terminal .kwBegin, .terminal .kwIf]

/-- The state before the condition of an `if`. -/
def conditionState : Nat := step ifState (.terminal .lpar)

/-- The state after the condition of an `if`. -/
def closedState : Nat := stepAll conditionState [Rule.condition.symbol, .terminal .rpar]

/-- The state after `then`. -/
def thenState : Nat := step closedState (.terminal .kwThen)

/-- The state after `else`. -/
def elseState : Nat := stepAll thenState [Rule.block.symbol, .terminal .kwElse]

/-- All `if`s lead to the same state. -/
theorem shifts_if : (states.all fun st =>
    (st.shifts.lookup .kwIf).all fun target => target = ifState) = true := by
  decide +kernel

theorem step_if {s target : Nat} (h : step? s (.terminal .kwIf) = some target) :
    step s (.terminal .kwIf) = ifState := by
  obtain ⟨st, hst, hshift⟩ := bind_eq_some_iff.mp h
  have htable := all_eq_true.mp shifts_if st (mem_of_getElem? hst)
  have hlookup : st.shifts.lookup .kwIf = some target := hshift
  rw [step_eq h]
  simpa [hlookup] using htable

theorem step_thenState_if : step thenState (.terminal .kwIf) = ifState := by decide +kernel

theorem exists_step_condition :
    ∃ target, step? conditionState Rule.condition.symbol = some target :=
  isSome_iff_exists.mp (by decide +kernel)

theorem exists_step_then : ∃ target, step? thenState Rule.block.symbol = some target :=
  isSome_iff_exists.mp (by decide +kernel)

theorem exists_step_else : ∃ target, step? elseState Rule.block.symbol = some target :=
  isSome_iff_exists.mp (by decide +kernel)

end Automaton

/-! ### Nested `if`s -/

/-- A reserved word or a sign as a token.  Where it stands does not matter. -/
def Token.word (k : Terminal) : Token := ⟨k, k.spelling?.getD "", Place.origin⟩

/-- An `if` with an `else`. -/
def closedIf : Production :=
  ⟨.rule .ifStatement, openIf.rhs ++ [.terminal .kwElse, .nonterminal (.rule .block)]⟩

/-- A statement that is an `if`. -/
def ifAlone : Production := ⟨.rule .statement, [.nonterminal (.rule .ifStatement)]⟩

theorem isLegal_if : openIf.IsLegal ∧ closedIf.IsLegal ∧ ifAlone.IsLegal ∧ bareBlock.IsLegal := by
  unfold Production.IsLegal
  decide

/-- What comes before the first block of an `if`. -/
def ConditionText.ifHead (c : ConditionText) : List Derivation :=
  [.leaf (.word .kwIf), .leaf (.word .lpar), c.derivation, .leaf (.word .rpar),
    .leaf (.word .kwThen)]

variable (front : List Char) (c : ConditionText) {rest : List Char}

theorem ConditionText.symbols_ifHead : c.ifHead.map symbol = openIf.rhs.take 5 := by
  rw [ifHead, map_cons, map_cons, map_cons, c.symbol_eq]
  rfl

/-- The derivation of nested `if`s, of which the innermost has an `else`. -/
def Derivation.ifChain (s : AssignmentText) (t : IfPlace) :
    ConditionText → List ConditionText → Derivation
  | c, [] => node closedIf (c.ifHead ++ [s.derivation, leaf (.word .kwElse), t.last])
  | c, c' :: cs => node openIf (c.ifHead ++ [node bareBlock [node ifAlone [ifChain s t c' cs]]])

namespace Derivation

variable (s : AssignmentText) (t : IfPlace) (c : ConditionText) (cs : List ConditionText)

theorem symbol_ifChain : (ifChain s t c cs).symbol = Rule.ifStatement.symbol := by
  cases cs <;> rfl

theorem nextKind_ifChain : nextKind (ifChain s t c cs).tokens = some .kwIf := by
  cases cs <;> rfl

theorem isSound_word {k : Terminal} {text : String} (hk : k.spelling? = some text) :
    (leaf (.word k)).IsSound := by
  refine ⟨trivial, fun t ht => ?_⟩
  obtain rfl := mem_singleton.mp ht
  refine ⟨fun _ => true, Place.origin, text.toList, [], ?_⟩
  rw [lexIn_fixed hk rfl, Token.word, hk]
  rfl

theorem isSound_ifHead : ∀ d ∈ c.ifHead, d.IsSound := by
  simp only [ConditionText.ifHead, forall_mem_cons, not_mem_nil, false_implies,
    implies_true, and_true]
  exact ⟨isSound_word rfl, isSound_word rfl, c.stands.isSound_part, isSound_word rfl,
    isSound_word rfl⟩

theorem isSound_ifChain : (ifChain s t c cs).IsSound := by
  induction cs generalizing c with
  | nil =>
    refine isSound_node isLegal_if.2.1 ?_ (forall_mem_append.mpr ⟨isSound_ifHead c, ?_⟩)
    · rw [map_append, c.symbols_ifHead, map_cons, map_cons, map_cons,
        s.isAssignment.symbol_eq, t.isAssignment.symbol_eq]
      rfl
    · simpa using ⟨s.stands.isSound_part, isSound_word rfl, t.stands_last.isSound_part⟩
  | cons c' cs ih =>
    have hstatement : (node ifAlone [ifChain s t c' cs]).IsSound :=
      isSound_node isLegal_if.2.2.1 (by simp [symbol_ifChain, ifAlone]) (by simpa using ih c')
    have hblock : (node bareBlock [node ifAlone [ifChain s t c' cs]]).IsSound :=
      isSound_node isLegal_if.2.2.2 rfl (by simpa using hstatement)
    refine isSound_node isLegal_if.1 ?_
      (forall_mem_append.mpr ⟨isSound_ifHead c, by simpa using hblock⟩)
    rw [map_append, c.symbols_ifHead]
    rfl

theorem settledAll_ifHead {ds : List Derivation} (h : SettledAll ds) :
    SettledAll (c.ifHead ++ ds) := by
  have hleaf (t : Token) (ds : List Derivation) (h : SettledAll ds) : SettledAll (leaf t :: ds) :=
    ⟨trivial, fun hhangs => absurd hhangs (by simp [hangs]), h⟩
  refine hleaf _ _ (hleaf _ _ ⟨c.stands.settled, fun _ => ?_, hleaf _ _ (hleaf _ _ h)⟩)
  simp [tokensAll, tokens, nextKind, Token.word]

theorem settled_ifChain : (ifChain s t c cs).Settled := by
  have hend (d : Derivation) (h : d.Settled) : SettledAll [d] :=
    ⟨h, fun _ => by simp [tokensAll, nextKind], trivial⟩
  induction cs generalizing c with
  | nil =>
    -- the assignment before the `else` does not hang
    have hs := s.isAssignment.hangs_eq_false s.stands.obeys
    exact settledAll_ifHead c ⟨s.stands.settled, fun hhangs => absurd hhangs (by simp [hs]),
      trivial, fun hhangs => absurd hhangs (by simp [hangs]), hend _ t.stands_last.settled⟩
  | cons c' cs ih => exact settledAll_ifHead c (hend _ (hend _ (hend _ (ih c'))))

/-- A single `if` with an `else` does not hang. -/
theorem ne_nil_of_hangs (h : (ifChain s t c cs).hangs = true) : cs ≠ [] := by
  rintro rfl
  have ht := t.isAssignment.hangs_eq_false t.stands_last.obeys
  have hne : closedIf ≠ openIf := by decide
  rw [ifChain, hangs, lastHangs_append (by simp)] at h
  simp [hne, lastHangs, ht] at h

end Derivation

/-! ### How the text is cut -/

variable {q s : Nat}

/-- A single token. -/
theorem Cuts.of_lexIn {t : Token} {cs : List Char} (h : lexIn (takes q) t.place cs = some (t, rest))
    (q' : Nat) : Cuts q [q'] cs [t] rest := by
  have hdone : Cuts q' [] ([] ++ rest) [] rest := .done (by simp)
  have htoken : Cuts q [q'] ([] ++ cs) [t] rest := .token (by simp) h hdone
  exact htoken

/-- A reserved word or a sign before layout. -/
theorem Cuts.word {k : Terminal} {text : String} (hk : k.spelling? = some text)
    (h : takes q k = true) (q' : Nat) (hrest : breaksOff rest = true) :
    Cuts q [q'] (text.toList ++ rest) [Token.word k] rest := by
  obtain ⟨c, cs, hcs, -, hc⟩ := (Lexeme.IsFree.fixed hk).text_eq_cons
  have hhead : text.toList.head? ≠ some '►' := by
    have htext : text.toList = c :: cs := hcs
    simpa [htext] using hc
  refine Cuts.of_lexIn ?_ q'
  rw [lexIn_append _ _ hhead hrest, lexIn_fixed hk h, Token.word, hk]
  rfl

/-- A parenthesis that opens needs no layout after it. -/
theorem Cuts.lpar (h : takes q .lpar = true) (q' : Nat) (rest : List Char) :
    Cuts q [q'] ('(' :: rest) [Token.word .lpar] rest := by
  have hfitting : fitting ('(' :: rest) = [.lpar] := rfl
  refine Cuts.of_lexIn ?_ q'
  rw [lexIn_eq_fitting, hfitting, findSome?_singleton, if_pos h]
  rfl

/-- A condition in an `if`. -/
theorem ConditionText.cuts (rest : List Char) :
    Cuts conditionState (c.derivation.path conditionState) (c.text ++ ')' :: rest)
      c.derivation.tokens (')' :: rest) := by
  obtain ⟨target, htarget⟩ := exists_step_condition
  have hcuts := c.stands.cuts_of_entered (by decide) c.symbol_eq htarget
  exact Cuts.transfer (w := []) (by decide) hcuts rest

/-- An assignment after `then`. -/
theorem AssignmentText.cuts (s : AssignmentText) (rest : List Char) :
    Cuts thenState (s.derivation.path thenState) (s.text ++ ' ' :: rest)
      s.derivation.tokens (' ' :: rest) := by
  obtain ⟨target, htarget⟩ := exists_step_then
  have hcuts := s.stands.cuts_of_entered (by decide) s.isAssignment.symbol_eq htarget
  exact Cuts.transfer (w := []) (by decide) hcuts rest

/-- The assignment of a place, after `else`. -/
theorem IfPlace.cuts (t : IfPlace) :
    Cuts elseState (t.last.path elseState) (t.text ++ t.back) t.last.tokens t.back := by
  obtain ⟨target, htarget⟩ := exists_step_else
  exact t.stands_last.cuts_of_entered (by decide) t.isAssignment.symbol_eq htarget

theorem Derivation.pathAll_word (s : Nat) (k : Terminal) (ds : List Derivation) :
    pathAll s (leaf (.word k) :: ds)
      = [step s (.terminal k)] ++ pathAll (step s (.terminal k)) ds := rfl

theorem ConditionText.pathAll_ifHead (hs : step s (.terminal .kwIf) = ifState) : pathAll s c.ifHead
      = [ifState] ++ ([conditionState] ++ (c.derivation.path conditionState ++
        ([closedState] ++ [thenState]))) := by
  rw [ifHead, pathAll_word, hs, pathAll_word, pathAll,
    c.symbol_eq, pathAll_word, pathAll_word]
  rfl

theorem ConditionText.tokensAll_ifHead : tokensAll c.ifHead
    = [.word .kwIf] ++ ([.word .lpar] ++ (c.derivation.tokens ++
      ([.word .rpar] ++ [.word .kwThen]))) := by
  simp [ifHead, tokensAll, tokens]

theorem isLayout_space : ∀ c ∈ [' '], isLayout c = true := List.forall_mem_singleton.mpr rfl

/-- The text of an `if` up to its first block. -/
theorem ConditionText.cuts_ifHead (hs : step s (.terminal .kwIf) = ifState)
    (h : TakesAll q (pathAll s c.ifHead) (tokensAll c.ifHead)) (rest : List Char) :
    Cuts q (pathAll s c.ifHead)
      ("if (".toList ++ (c.text ++ (") then ".toList ++ rest)))
      (tokensAll c.ifHead) (' ' :: rest) := by
  rw [c.pathAll_ifHead hs, c.tokensAll_ifHead] at h ⊢
  obtain ⟨hif, hlpar, h⟩ := h
  obtain ⟨-, hrpar, hthen, -⟩ := h.of_append (c.derivation.length_path _)
  have hopen : Cuts q [ifState] ("if".toList ++ ' ' :: '(' :: (c.text ++ ')' :: ' ' ::
      ("then".toList ++ ' ' :: rest))) [.word .kwIf] _ := Cuts.word rfl hif ifState rfl
  have hclose : Cuts _ [closedState] (")".toList ++ ' ' :: ("then".toList ++ ' ' :: rest))
      [.word .rpar] _ := Cuts.word rfl hrpar closedState rfl
  have hlast : Cuts _ [thenState] ("then".toList ++ ' ' :: rest) [.word .kwThen] _ :=
    Cuts.word rfl hthen thenState rfl
  have hcuts := hopen.append (((Cuts.lpar hlpar conditionState _).of_gap isLayout_space).append
    ((c.cuts _).append (hclose.append (hlast.of_gap isLayout_space))))
  simpa only [String.reduceToList, cons_append, nil_append] using hcuts

/-- The text `if (c₁) then if (c₂) then … if (cₙ) then s else t`, for one or more conditions. -/
def ifChain (s t : List Char) : List Char → List (List Char) → List Char
  | c, [] => "if (".toList ++ (c ++ (") then ".toList ++ (s ++ (" else ".toList ++ t))))
  | c, c' :: cs => "if (".toList ++ (c ++ (") then ".toList ++ ifChain s t c' cs))

section

variable (s : AssignmentText) (t : IfPlace) (c : ConditionText)

variable {q : Nat}

theorem stepAll_ifHead (hq : step q (.terminal .kwIf) = ifState) :
    stepAll q (c.ifHead.map symbol) = thenState := by
  have hrhs : openIf.rhs.take 5 = .terminal .kwIf :: (openIf.rhs.take 5).tail := rfl
  rw [c.symbols_ifHead, hrhs, stepAll, foldl_cons, hq]
  rfl

theorem lastOf_pathAll_ifHead (hq : step q (.terminal .kwIf) = ifState) (q' : Nat) :
    lastOf q' (pathAll q c.ifHead) = thenState := by
  rw [c.pathAll_ifHead hq]
  simp [lastOf]

theorem path_ifChain_nil (hq : step q (.terminal .kwIf) = ifState) :
    (Derivation.ifChain s t c []).path q = pathAll q c.ifHead ++
      (s.derivation.path thenState ++ ([elseState] ++ t.last.path elseState)) := by
  rw [Derivation.ifChain, Derivation.path, pathAll_append, stepAll_ifHead c hq,
    pathAll, s.isAssignment.symbol_eq, pathAll_word, pathAll,
    pathAll, append_nil]
  rfl

variable (c' : ConditionText) (cs : List ConditionText)

theorem path_ifChain_cons (hq : step q (.terminal .kwIf) = ifState) :
    (Derivation.ifChain s t c (c' :: cs)).path q
      = pathAll q c.ifHead ++ (Derivation.ifChain s t c' cs).path thenState := by
  rw [Derivation.ifChain, Derivation.path, pathAll_append, stepAll_ifHead c hq]
  simp [pathAll, Derivation.path]

theorem tokens_ifChain_nil : (Derivation.ifChain s t c []).tokens
    = tokensAll c.ifHead ++ (s.derivation.tokens ++ ([.word .kwElse] ++ t.last.tokens)) := by
  rw [Derivation.ifChain, tokens, tokensAll_append]
  simp [tokensAll, tokens]

theorem tokens_ifChain_cons :
    (Derivation.ifChain s t c (c' :: cs)).tokens
      = tokensAll c.ifHead ++ (Derivation.ifChain s t c' cs).tokens := by
  rw [Derivation.ifChain, tokens, tokensAll_append]
  simp [tokensAll, tokens]

/-- **The text of nested `if`s is cut into their tokens**, if these can be taken. -/
theorem cuts_ifChain {q' : Nat} (hq : step q (.terminal .kwIf) = ifState)
    (h : TakesAll q' ((Derivation.ifChain s t c cs).path q) (Derivation.ifChain s t c cs).tokens) :
    Cuts q' ((Derivation.ifChain s t c cs).path q)
      (ifChain s.text t.text c.text (cs.map ConditionText.text) ++ t.back)
      (Derivation.ifChain s t c cs).tokens t.back := by
  induction cs generalizing c q q' with
  | nil =>
    rw [path_ifChain_nil s t c hq, tokens_ifChain_nil] at h ⊢
    obtain ⟨hhead, hrest⟩ := h.of_append (length_pathAll _ _)
    obtain ⟨-, helse, -⟩ := hrest.of_append (s.derivation.length_path _)
    rw [lastOf_pathAll_ifHead c hq] at helse
    have hword : Cuts _ [elseState] ("else".toList ++ ' ' :: (t.text ++ t.back))
        [.word .kwElse] _ := Cuts.word rfl helse elseState rfl
    have hblocks := (s.cuts _).append
      ((hword.of_gap isLayout_space).append (t.cuts.of_gap isLayout_space))
    have htext : ifChain s.text t.text c.text [] ++ t.back
        = "if (".toList ++ (c.text ++ (") then ".toList ++
          (s.text ++ ' ' :: ("else".toList ++ ' ' :: (t.text ++ t.back))))) := by
      simp [ifChain]
    rw [map_nil, htext]
    refine (c.cuts_ifHead hq hhead _).append ?_
    rw [lastOf_pathAll_ifHead c hq]
    exact hblocks.of_gap isLayout_space
  | cons c' cs ih =>
    rw [path_ifChain_cons s t c c' cs hq, tokens_ifChain_cons] at h ⊢
    obtain ⟨hhead, hrest⟩ := h.of_append (length_pathAll _ _)
    have hinner := ih c' step_thenState_if hrest
    have htext : ifChain s.text t.text c.text ((c' :: cs).map ConditionText.text) ++ t.back
        = "if (".toList ++ (c.text ++ (") then ".toList ++
          (ifChain s.text t.text c'.text (cs.map ConditionText.text) ++ t.back))) := by
      simp [ifChain]
    rw [htext]
    exact (c.cuts_ifHead hq hhead _).append (hinner.of_gap isLayout_space)

end

/-! ### What is built -/

/-- A block with a single statement. -/
def blockOf (v : Value) : Value := .node .block [.list [v]]

/-- Nested `if`s, of which the innermost has an `else`.  The others hold just the next one. -/
def nestedIfs (s t : Value) : Value → List Value → Value
  | c, [] => .node .ifStatement [c, blockOf s, blockOf t]
  | c, c' :: cs => .node .ifStatement [c, blockOf (nestedIfs s t c' cs), .none]

theorem exists_nestedIfs_eq (s t c : Value) (cs : List Value) :
    ∃ fields, nestedIfs s t c cs = .node .ifStatement fields := by
  cases cs <;> exact ⟨_, rfl⟩

namespace Derivation

theorem valuesAll_word {k : Terminal} (hk : k.isKept = false) (ds : List Derivation) :
    valuesAll (leaf (.word k) :: ds) = valuesAll ds :=
  valuesAll_cons_of_not_isKept rfl hk ds

variable {a : Derivation} {v : Value}

/-- Only a semicolon can follow an assignment in a statement, and it leaves nothing. -/
theorem valuesAll_after_assignment {more : List Derivation}
    (h : (a :: more).map symbol ∈ Rule.statement.phrase.expansions)
    (ha : a.symbol = Rule.assignment.symbol) : valuesAll more = .ok [] := by
  have htable : (Rule.statement.phrase.expansions.all fun xs =>
      xs.head? ≠ some Rule.assignment.symbol || xs.tail = [] || xs.tail = [.terminal .semicolon])
        = true := by
    decide
  have hmore := all_eq_true.mp htable _ h
  have hcases : more.map symbol = [] ∨ more.map symbol = [.terminal .semicolon] := by
    simpa [ha] using hmore
  rcases hcases with hnil | hsemicolon
  · rw [map_eq_nil_iff.mp hnil]
    rfl
  · obtain ⟨m, rfl, hm⟩ := map_eq_singleton_iff.mp hsemicolon
    rw [valuesAll_cons_of_not_isKept hm rfl]
    rfl

/-- What is built from an assignment is a statement. -/
theorem isStatement_of_assignment
    (ha : a.symbol = Rule.assignment.symbol) (hv : a.values = .ok [v]) : v.isStatement = true := by
  obtain ⟨p, ds, rfl, hp⟩ : ∃ p ds, a = node p ds ∧ p.lhs = .rule .assignment := by
    cases a with
    | leaf t => simp [symbol] at ha
    | node p ds => exact ⟨p, ds, rfl, by simpa [symbol] using ha⟩
  obtain ⟨parts, w, -, hbuild, hw⟩ := (values_rule_eq_ok_iff hp).mp hv
  obtain ⟨target, value, -, -, rfl⟩ := Build.assignment_eq_ok hbuild
  rw [(List.cons.inj hw).1]
  rfl

theorem IsAssignment.values_eq {d : Derivation} (h : d.IsAssignment v)
    (hlegal : d.Obeys Production.IsLegal) : d.values = .ok [blockOf v] := by
  obtain ⟨p, a, more, rfl, hp, hmem, ha, hv⟩ := h.exists_statement hlegal
  have hmore := valuesAll_after_assignment hmem ha
  have hstatement : (node p (a :: more)).values = .ok [v] :=
    (values_rule_eq_ok_iff hp).mpr
      ⟨[v], v, valuesAll_cons_eq_ok_iff.mpr ⟨[v], [], hv, hmore, rfl⟩, rfl, rfl⟩
  refine (values_rule_eq_ok_iff rfl).mpr ⟨[v], _, ?_, rfl, ?_⟩
  · rw [valuesAll_singleton, hstatement]
  · simp [blockOf, isStatement_of_assignment ha hv]

theorem valuesAll_ifHead (c : ConditionText) {ds : List Derivation} {vs : List Value}
    (h : valuesAll ds = .ok vs) : valuesAll (c.ifHead ++ ds) = .ok (c.value :: vs) := by
  simp only [ConditionText.ifHead, cons_append, nil_append]
  rw [valuesAll_word rfl, valuesAll_word rfl, valuesAll_cons_eq_ok_iff]
  refine ⟨[c.value], vs, c.values_eq, ?_, rfl⟩
  rw [valuesAll_word rfl, valuesAll_word rfl, h]

theorem values_ifChain (s : AssignmentText) (t : IfPlace) (c : ConditionText)
    (cs : List ConditionText) : (ifChain s t c cs).values
      = .ok [nestedIfs s.value t.value c.value (cs.map ConditionText.value)] := by
  induction cs generalizing c with
  | nil =>
    have hblocks : valuesAll [s.derivation, leaf (.word .kwElse), t.last]
        = .ok [blockOf s.value, blockOf t.value] := by
      refine valuesAll_cons_eq_ok_iff.mpr ⟨_, [blockOf t.value],
        s.isAssignment.values_eq s.stands.obeys, ?_, rfl⟩
      rw [valuesAll_word rfl, valuesAll_singleton,
        t.isAssignment.values_eq t.stands_last.obeys]
    exact (values_rule_eq_ok_iff rfl).mpr ⟨_, _, valuesAll_ifHead c hblocks, rfl, rfl⟩
  | cons c' cs ih =>
    obtain ⟨fields, hfields⟩ := exists_nestedIfs_eq s.value t.value c'.value
      (cs.map ConditionText.value)
    have hstatement : (node ifAlone [ifChain s t c' cs]).values
        = .ok [nestedIfs s.value t.value c'.value (cs.map ConditionText.value)] :=
      (values_rule_eq_ok_iff rfl).mpr ⟨_, _, by rw [valuesAll_singleton, ih], rfl, rfl⟩
    have hblock : (node bareBlock [node ifAlone [ifChain s t c' cs]]).values
        = .ok [blockOf (nestedIfs s.value t.value c'.value (cs.map ConditionText.value))] := by
      refine (values_rule_eq_ok_iff rfl).mpr
        ⟨_, _, by rw [valuesAll_singleton, hstatement], rfl, ?_⟩
      rw [hfields]
      rfl
    rw [← valuesAll_singleton] at hblock
    exact (values_rule_eq_ok_iff rfl).mpr ⟨_, _, valuesAll_ifHead c hblock, rfl, rfl⟩

end Derivation

/-! ### The text in its place -/

namespace IfPlace

variable (t : IfPlace)

/-- The statement in a place. -/
def statement : Derivation := .node t.production (t.left ++ [t.last])

/-- The statement starts with `if`. -/
theorem exists_left_eq : ∃ u left, t.left = .leaf u :: left ∧ u.kind = .kwIf := by
  obtain ⟨hlegal, hrhs, -⟩ := t.stands.obeys
  have hstart : (Rule.ifStatement.phrase.expansions.all
      fun xs => xs.head? = some (.terminal .kwIf)) = true := by decide
  rw [Production.IsLegal, t.lhs_eq, ← hrhs] at hlegal
  have hhead := all_eq_true.mp hstart _ hlegal
  cases hleft : t.left with
  | nil => simp [hleft, t.isAssignment.symbol_eq] at hhead
  | cons l left =>
    have hl : l.symbol = .terminal .kwIf := by simpa [hleft] using hhead
    obtain ⟨u, rfl, hu⟩ := Derivation.exists_eq_leaf hl
    exact ⟨u, left, rfl, hu⟩

theorem nextKind_statement : nextKind t.statement.tokens = some .kwIf := by
  obtain ⟨u, left, hleft, hu⟩ := t.exists_left_eq
  rw [statement, hleft, cons_append, tokens, tokensAll,
    tokens, ← hu]
  rfl

theorem step_if : step (t.surroundings.stateAt 0) (.terminal .kwIf) = ifState := by
  obtain ⟨u, left, hleft, hu⟩ := t.exists_left_eq
  -- the first token in a hole of its own
  have hfill : (t.surroundings.comp (.node t.production [] .hole (left ++ [t.last]))).fill (.leaf u)
      = t.surroundings.fill t.statement := by
    rw [Surroundings.fill_comp, statement, hleft]
    rfl
  have hobeys := t.stands.isSound.obeys
  have hsymbol := t.stands.symbol_fill
  rw [← statement, ← hfill] at hobeys hsymbol
  obtain ⟨target, htarget⟩ := Surroundings.exists_step hobeys hsymbol (by simp [symbol])
  rw [Surroundings.stateAt_comp, symbol, hu] at htarget
  exact Automaton.step_if htarget

/-- The state after the statement is the one after the assignment at its end. -/
theorem lastOf_statement (q : Nat) : lastOf q (t.statement.path (t.surroundings.stateAt 0))
    = lastOf 0 (t.last.path elseState) := by
  obtain ⟨target, htarget⟩ := exists_step_else
  obtain ⟨target', htarget'⟩ := Surroundings.exists_step t.stands_last.isSound.obeys
    t.stands_last.symbol_fill (by rw [t.isAssignment.symbol_eq]; decide)
  rw [t.isAssignment.symbol_eq, Surroundings.stateAt_comp] at htarget'
  have hpath := Derivation.path_eq_of_entered (by decide) htarget' htarget t.last
    t.stands_last.obeys
  rw [statement, Derivation.path, pathAll_append, lastOf_append, pathAll,
    pathAll, append_nil]
  exact (congrArg (lastOf _) hpath).trans
    (lastOf_congr (path_ne_nil t.stands_last.obeys _) _ _)

/-- So is the state after nested `if`s with that assignment. -/
theorem lastOf_ifChain (s : AssignmentText) (c : ConditionText) (cs : List ConditionText)
    {q : Nat} (hq : step q (.terminal .kwIf) = ifState) (q' : Nat) :
    lastOf q' ((Derivation.ifChain s t c cs).path q) = lastOf 0 (t.last.path elseState) := by
  induction cs generalizing c q q' with
  | nil =>
    rw [path_ifChain_nil s t c hq, lastOf_append, lastOf_append, lastOf_append]
    exact lastOf_congr (path_ne_nil t.stands_last.obeys _) _ _
  | cons c' cs ih =>
    rw [path_ifChain_cons s t c c' cs hq, lastOf_append]
    exact ih c' step_thenState_if _

/-- What comes before the statement is cut as before. -/
theorem cuts_before (s : AssignmentText) (c : ConditionText) (cs : List ConditionText) :
    Cuts 0 (t.surroundings.pathBefore 0)
      (t.front ++ (ifChain s.text t.text c.text (cs.map ConditionText.text) ++ t.back))
      t.surroundings.before
      (ifChain s.text t.text c.text (cs.map ConditionText.text) ++ t.back) := by
  obtain ⟨rest, hrest⟩ : ∃ rest, ifChain s.text t.text c.text (cs.map ConditionText.text) ++ t.back
      = "if".toList ++ ' ' :: rest := by
    cases cs <;> simp [ifChain]
  have hcuts := t.stands.cuts.1
  have hif : "if ".toList ++ (t.head ++ t.text) ++ t.back
      = "if".toList ++ ' ' :: (t.head ++ t.text ++ t.back) := by simp
  rw [hif, ← append_assoc] at hcuts
  rw [hrest, ← append_assoc]
  exact hcuts.transfer (by decide) rest

end IfPlace

/-- **An `else` belongs to the nearest `if`.**  Wherever an `if` statement stands in a program, the
    text of nested `if`s with the same assignment at its end may take its place.  The rest of the
    program is read as before, and the text as nested `if` statements of which only the innermost
    has an `else`.  No `else` follows a statement in a body.  Where one does follow, there may be a
    single condition only, since it would belong to one of the outer `if`s. -/
theorem else_belongs_to_nearest_if (c : ConditionText) (cs : List ConditionText)
    (s : AssignmentText) (t : IfPlace)
    (h : cs = [] ∨ nextKind t.surroundings.after ≠ some .kwElse) :
    ∃ d v, (derive (t.front ++ (ifChain s.text t.text c.text (cs.map ConditionText.text) ++
          t.back))).map unplaced = .ok (t.surroundings.fill d).unplaced ∧
      d.symbol = Rule.ifStatement.symbol ∧
      d.values = .ok [nestedIfs s.value t.value c.value (cs.map ConditionText.value)] ∧
      programOfText (String.ofList (t.front ++
        (ifChain s.text t.text c.text (cs.map ConditionText.text) ++ t.back))) = .ok v ∧
      (nestedIfs s.value t.value c.value (cs.map ConditionText.value)).nodes ⊆ v.nodes := by
  have hsymbol : (Derivation.ifChain s t c cs).symbol = t.statement.symbol := by
    rw [symbol_ifChain, IfPlace.statement, symbol, t.lhs_eq]
  have hfirst : nextKind (Derivation.ifChain s t c cs).tokens = nextKind t.statement.tokens := by
    rw [Derivation.nextKind_ifChain, t.nextKind_statement]
  have hsound := Derivation.isSound_ifChain s t c cs
  have hvalues := Derivation.values_ifChain s t c cs
  obtain ⟨d', hderive, hd'⟩ := t.stands.replace hsound.obeys (Derivation.settled_ifChain s t c cs)
    hsymbol hfirst (fun hhangs => h.resolve_left (Derivation.ne_nil_of_hangs s t c cs hhangs))
    (t.cuts_before s c cs) (cuts_ifChain s t c cs t.step_if)
    ((t.lastOf_ifChain s c cs t.step_if _).trans (t.lastOf_statement _).symm)
  have hfill := t.stands.isSound_fill hsound hsymbol
  obtain ⟨vs, hvs⟩ := t.stands.exists_values_fill hsound hsymbol t.values_eq hvalues
  have hstart : (t.surroundings.fill (Derivation.ifChain s t c cs)).symbol = Rule.start.symbol := by
    rw [Surroundings.symbol_fill, hsymbol, ← Surroundings.symbol_fill]
    exact t.stands.symbol_fill
  obtain ⟨v, rfl⟩ := Derivation.eq_singleton_of_values hstart hvs
  refine ⟨_, v, ?_, symbol_ifChain s t c cs, hvalues, ?_, ?_⟩
  · rw [hderive, ← hd']
    rfl
  · rw [programOfText_eq_ok_iff, String.toList_ofList]
    refine ⟨d', hderive, ?_⟩
    rw [← Derivation.values_unplaced, hd', Derivation.values_unplaced, hvs]
  · obtain ⟨fields, hfields⟩ := exists_nestedIfs_eq s.value t.value c.value
      (cs.map ConditionText.value)
    rw [hfields] at hvalues ⊢
    exact Surroundings.nodes_subset hfill hvs hvalues
      (by rw [symbol_ifChain]; exact List.mem_singleton_self _)

/-! ### Finding the parts -/

/-- Whether a block is nothing but an assignment. -/
def Derivation.isAssignment : Derivation → Bool
  | node p [node _ (a :: _)] => p = bareBlock && a.symbol = Rule.assignment.symbol
  | _ => false

theorem Derivation.exists_isAssignment {d : Derivation} (h : d.isAssignment = true)
    {vs : List Value} (hvs : d.values = .ok vs) : ∃ v, d.IsAssignment v := by
  unfold isAssignment at h
  split at h
  · rename_i p q a more
    obtain ⟨hp, ha⟩ : p = bareBlock ∧ a.symbol = Rule.assignment.symbol := by simpa using h
    obtain ⟨ws, hws⟩ := exists_values_of_mem_children hvs (node q (a :: more)) (by simp)
    obtain ⟨us, hus⟩ := exists_values_of_mem_children hws a (by simp)
    obtain ⟨v, rfl⟩ := eq_singleton_of_values ha hus
    exact ⟨v, q, a, more, by rw [hp], ha, hus⟩
  · exact absurd h Bool.false_ne_true

theorem exists_conditionText (front text back : List Char) (address : List Nat)
    (h : ((derive (front ++ (text ++ ')' :: back))).toOption.any fun e =>
      (e.focus? address).any fun found => found.1.isPlaced found.2 front text &&
        (found.2.symbol = Rule.condition.symbol && found.2.values.isOk)) = true) :
    ∃ c : ConditionText, c.text = text := by
  obtain ⟨K, d, hstands, hd⟩ := exists_stands (P := fun _ d =>
    d.symbol = Rule.condition.symbol && d.values.isOk) address h
  obtain ⟨hsymbol, hok⟩ : d.symbol = Rule.condition.symbol ∧ d.values.isOk = true := by
    simpa using hd
  obtain ⟨vs, hvs⟩ := exists_eq_ok_of_isOk hok
  obtain ⟨v, rfl⟩ := eq_singleton_of_values hsymbol hvs
  exact ⟨⟨text, v, d, K, front, back, hstands, hsymbol, hvs⟩, rfl⟩

theorem exists_assignmentText (text back : List Char) (address : List Nat)
    (h : ((derive (front ++ (text ++ ' ' :: back))).toOption.any fun e => (e.focus? address).any fun found => found.1.isPlaced found.2 front text && (found.2.isAssignment && found.2.values.isOk)) = true) :
    ∃ s : AssignmentText, s.text = text := by
  obtain ⟨K, d, hstands, hd⟩ := exists_stands (P := fun _ d =>
    d.isAssignment && d.values.isOk) address h
  obtain ⟨hassignment, hok⟩ := Bool.and_eq_true_iff.mp hd
  obtain ⟨vs, hvs⟩ := exists_eq_ok_of_isOk hok
  obtain ⟨v, hv⟩ := Derivation.exists_isAssignment hassignment hvs
  exact ⟨⟨text, v, d, K, front, back, hstands, hv⟩, rfl⟩

/-- Whether an `if` ends in an assignment with a given text. -/
def Surroundings.endsIf (K : Surroundings) (front text : List Char) : Derivation → Bool
  | .leaf _ => false
  | .node p ds => p.lhs = .rule .ifStatement && ds.getLast?.any fun last =>
      last.isAssignment && (K.comp (.node p ds.dropLast .hole [])).isPlaced last front text

theorem exists_ifPlace (head text back : List Char) (address : List Nat)
    (h : ((derive (front ++ ("if ".toList ++ (head ++ text) ++ back))).toOption.any fun e => (e.focus? address).any fun found => found.1.isPlaced found.2 front ("if ".toList ++ (head ++ text)) && (found.1.endsIf (front ++ ("if ".toList ++ head)) text found.2 && (found.1.fill found.2).values.isOk && nextKind found.1.after ≠ some .kwElse)) = true) :
    ∃ t : IfPlace, t.front = front ∧ t.text = text ∧ t.back = back ∧
      nextKind t.surroundings.after ≠ some .kwElse := by
  obtain ⟨K, d, hstands, hd⟩ := exists_stands (P := fun K d =>
    K.endsIf (front ++ ("if ".toList ++ head)) text d && (K.fill d).values.isOk &&
      nextKind K.after ≠ some .kwElse) address h
  simp only [Bool.and_eq_true, decide_eq_true_eq] at hd
  obtain ⟨⟨hends, hok⟩, helse⟩ := hd
  obtain ⟨p, left, last, rfl, hp, hassignment, hplaced⟩ : ∃ p left last,
      d = .node p (left ++ [last]) ∧ p.lhs = .rule .ifStatement ∧ last.isAssignment = true ∧
      (K.comp (.node p left .hole [])).isPlaced last (front ++ ("if ".toList ++ head)) text
        = true := by
    cases d with
    | leaf t => exact absurd hends Bool.false_ne_true
    | node p ds =>
      obtain ⟨hp, hlast⟩ := Bool.and_eq_true_iff.mp hends
      obtain ⟨last, hds, hlast⟩ := (any_eq_true _ _).mp hlast
      obtain ⟨hassignment, hplaced⟩ := Bool.and_eq_true_iff.mp hlast
      refine ⟨p, ds.dropLast, last, ?_, of_decide_eq_true hp, hassignment, hplaced⟩
      rw [dropLast_append_getLast? last hds]
  obtain ⟨us, hus⟩ := exists_eq_ok_of_isOk hok
  obtain ⟨program, rfl⟩ := eq_singleton_of_values hstands.symbol_fill hus
  have hfill : (K.comp (.node p left .hole [])).fill last = K.fill (.node p (left ++ [last])) :=
    Surroundings.fill_comp _ _ _
  obtain ⟨vs, hvs⟩ := Surroundings.exists_values_of_fill
    (K := K.comp (.node p left .hole [])) (d := last) (hfill ▸ hus)
  obtain ⟨v, hv⟩ := Derivation.exists_isAssignment hassignment hvs
  have hlast : Stands (K.comp (.node p left .hole [])) last (front ++ ("if ".toList ++ head)) text
      back := by
    refine .of_isPlaced ?_ hplaced
    rw [hfill, ← hstands.derive_eq]
    simp only [append_assoc]
  exact ⟨⟨front, head, text, back, K, p, left, last, v, program, hp, hv, hstands, hlast, hus⟩, rfl,
    rfl, rfl, helse⟩

/-- A condition of an `if` and one of a loop, and an assignment with a semicolon. -/
theorem else_belongs_to_nearest_if_twice :
    ∃ (c c' : ConditionText) (s : AssignmentText) (t : IfPlace),
      ([c'] = [] ∨ nextKind t.surroundings.after ≠ some .kwElse) ∧
      t.front ++ (ifChain s.text t.text c.text [c'.text] ++ t.back)
        = "begin if (a) then if (not b) then x := 1; else y := 2 end".toList ∧
      ∃ d v, (derive (t.front ++ (ifChain s.text t.text c.text [c'.text] ++
            t.back))).map unplaced = .ok (t.surroundings.fill d).unplaced ∧
        d.symbol = Rule.ifStatement.symbol ∧
        d.values = .ok [nestedIfs s.value t.value c.value [c'.value]] ∧
        programOfText (String.ofList (t.front ++
          (ifChain s.text t.text c.text [c'.text] ++ t.back))) = .ok v ∧
        (nestedIfs s.value t.value c.value [c'.value]).nodes ⊆ v.nodes := by
  obtain ⟨c, hc⟩ := exists_conditionText "begin if (".toList "a".toList
    " then y := 2 end".toList [0, 0, 0, 1, 0, 0, 2] (by decide +kernel)
  obtain ⟨c', hc'⟩ := exists_conditionText "begin while (".toList "not b".toList
    " do y := 2 end".toList [0, 0, 0, 1, 0, 0, 2] (by decide +kernel)
  obtain ⟨s, hs⟩ := exists_assignmentText "begin while (b) do ".toList "x := 1;".toList
    "end".toList [0, 0, 0, 1, 0, 0, 5] (by decide +kernel)
  obtain ⟨t, hfront, htext, hback, helse⟩ := exists_ifPlace "begin ".toList "(a) then ".toList
    "y := 2".toList " end".toList [0, 0, 0, 1, 0, 0] (by decide +kernel)
  refine ⟨c, c', s, t, .inr helse, ?_, else_belongs_to_nearest_if c [c'] s t (.inr helse)⟩
  rw [hfront, htext, hback, hc, hc', hs]
  decide

end Ordo
