import Ordo.Automaton.States
import Ordo.Syntax.Derivation

namespace Ordo

open Automaton

/-!
# Derivations and their tokens

What a derivation says about the text it was read from: its tokens in order, the productions it
uses, the token it starts with, and whether it leaves open where an `else` belongs.

* `Derivation.tokens`, `Derivation.Obeys` — the tokens of a derivation, and that it uses only
  certain productions;
* `Derivation.starts_tokens` — the token that a derivation starts with;
* `Derivation.hangs`, `Derivation.Settled` — a derivation that ends with an `if` without an
  `else`, and one in which no such `if` stands before an `else`;
* `Derivation.settled_of_braced` — where every block is put between `begin` and `end`, each
  `else` is settled.
-/

open List

/-! ### Derivations -/

namespace Derivation

/-- Induction on a derivation: what holds of a node if it holds of all its children. -/
@[elab_as_elim, induction_eliminator]
theorem induction {motive : Derivation → Prop} (leaf : ∀ t, motive (leaf t))
    (node : ∀ p ds, (∀ d ∈ ds, motive d) → motive (node p ds)) (d : Derivation) : motive d :=
  @Derivation.rec motive (fun ds => ∀ d ∈ ds, motive d) leaf node (by simp)
    (fun _ _ hd hds => forall_mem_cons.mpr ⟨hd, hds⟩) d

mutual

/-- The tokens of a derivation, in order. -/
def tokens : Derivation → List Token
  | leaf t => [t]
  | node _ children => tokensAll children

/-- The tokens of several derivations, in order. -/
def tokensAll : List Derivation → List Token
  | [] => []
  | d :: ds => d.tokens ++ tokensAll ds

end

theorem tokensAll_eq_flatMap (ds : List Derivation) : tokensAll ds = ds.flatMap tokens := by
  induction ds with
  | nil => rfl
  | cons d ds ih => rw [tokensAll, ih, flatMap_cons]

theorem tokensAll_append (ds es : List Derivation) :
    tokensAll (ds ++ es) = tokensAll ds ++ tokensAll es := by
  simp only [tokensAll_eq_flatMap, flatMap_append]

theorem mem_tokensAll {t : Token} {ds : List Derivation} :
    t ∈ tokensAll ds ↔ ∃ d ∈ ds, t ∈ d.tokens := by
  rw [tokensAll_eq_flatMap, mem_flatMap]

end Derivation

/-- A production of the grammar. -/
def Production.IsLegal (p : Production) : Prop := p.rhs ∈ p.lhs.expansions

namespace Derivation

mutual

/-- Every node of a derivation uses a production with a given property, and its children derive
    the right side of that production. -/
def Obeys (allowed : Production → Prop) : Derivation → Prop
  | leaf _ => True
  | node p children => allowed p ∧ children.map symbol = p.rhs ∧ ObeyAll allowed children

/-- The same for several derivations. -/
def ObeyAll (allowed : Production → Prop) : List Derivation → Prop
  | [] => True
  | d :: ds => d.Obeys allowed ∧ ObeyAll allowed ds

end

variable {allowed allowed' : Production → Prop} {ds es : List Derivation} {p : Production}

theorem obeyAll_iff : ObeyAll allowed ds ↔ ∀ d ∈ ds, d.Obeys allowed := by
  induction ds with
  | nil => simp [ObeyAll]
  | cons d ds ih => rw [ObeyAll, ih, forall_mem_cons]

theorem obeyAll_append_iff :
    ObeyAll allowed (ds ++ es) ↔ ObeyAll allowed ds ∧ ObeyAll allowed es := by
  simp only [obeyAll_iff, forall_mem_append]

theorem obeys_node : (node p ds).Obeys allowed ↔
    allowed p ∧ ds.map symbol = p.rhs ∧ ∀ d ∈ ds, d.Obeys allowed := by
  rw [Obeys, obeyAll_iff]

/-- A derivation obeys every weaker property. -/
theorem Obeys.mono {d : Derivation} (hd : d.Obeys allowed) (h : ∀ p, allowed p → allowed' p) :
    d.Obeys allowed' := by
  induction d with
  | leaf t => trivial
  | node p ds ih =>
    obtain ⟨hp, hrhs, hds⟩ := obeys_node.mp hd
    exact obeys_node.mpr ⟨h p hp, hrhs, fun d hmem => ih d hmem (hds d hmem)⟩

end Derivation

/-- An `if` without an `else`. -/
def openIf : Production :=
  ⟨.rule .ifStatement, [.terminal .kwIf, .terminal .lpar, .nonterminal (.rule .condition),
    .terminal .rpar, .terminal .kwThen, .nonterminal (.rule .block)]⟩

namespace Derivation

mutual

/-- Whether a derivation ends with an `if` without an `else`. -/
def hangs : Derivation → Bool
  | leaf _ => false
  | node p children => p = openIf || lastHangs children

/-- Whether the last of several derivations does. -/
def lastHangs : List Derivation → Bool
  | [] => false
  | d :: ds => if ds.isEmpty then d.hangs else lastHangs ds

end

theorem lastHangs_eq (ds : List Derivation) : lastHangs ds = ds.getLast?.any hangs := by
  induction ds with
  | nil => rfl
  | cons d ds ih =>
    cases ds with
    | nil => rfl
    | cons e es => simpa [lastHangs] using ih

end Derivation

/-- The kind of the first of some tokens. -/
def nextKind (ts : List Token) : Lookahead := ts.head?.map Token.kind

mutual

/-- No `if` without an `else` stands before an `else`. -/
def Derivation.Settled : Derivation → Prop
  | .leaf _ => True
  | .node _ children => SettledAll children

/-- The same for several derivations that follow one another. -/
def Derivation.SettledAll : List Derivation → Prop
  | [] => True
  | d :: ds =>
      d.Settled ∧ (d.hangs = true → nextKind (tokensAll ds) ≠ some .kwElse) ∧ SettledAll ds

end

theorem nextKind_append {ts : List Token} {t : Terminal} (h : nextKind ts = some t)
    (rest : List Token) : nextKind (ts ++ rest) = some t := by
  cases ts with
  | nil => exact absurd h (by simp [nextKind])
  | cons u us => exact h

/-! ### First tokens -/

/-- The terminals that a nonterminal can start with. -/
def Nonterminal.starts : Nonterminal → List Terminal
  | .rule .start | .rule .program | .rule .algorithm => beforeDefinition
  | .rule .mainAlgorithm => [.kwBegin]
  | .rule .statement | .many .statements => statementStart
  | .rule .block => .kwBegin :: statementStart
  | .rule .forLoop => [.kwFor]
  | .rule .whileLoop => [.kwWhile]
  | .rule .repeatLoop => [.kwRepeat]
  | .rule .ifStatement => [.kwIf]
  | .rule .callStatement => [.kwCall]
  | .rule .returnStatement => [.kwReturn]
  | .rule .comment => [.comment]
  | .rule .expression | .rule .logicalOr | .rule .logicalAnd | .rule .logicalNot
  | .rule .condition | .rule .argumentList | .rule .range => .kwNot :: operandStart
  | .rule .comparison | .rule .arithmetic | .rule .term | .rule .factor => operandStart
  | .rule .power | .rule .atom =>
      [.number, .boolean, .null, .lpar, .cname, .ceilOpen, .floorOpen, .kwLength]
  | .rule .length => [.kwLength]
  | .rule .ceiling => [.ceilOpen]
  | .rule .floor => [.floorOpen]
  | .many .parameters | .many .arguments => [.comma]
  | .many .brackets | .many .indices => [.lsqb]
  | .many .disjuncts => [.kwOr]
  | .many .conjuncts => [.kwAnd]
  | .many .comparisons | .rule .compOp => comparisonShifts.map Prod.fst
  | .many .summands => [.plus, .minus]
  | .many .multiplicands => [.star, .slash, .kwMod, .kwDiv]
  | .many .exponents => [.circumflex]
  | _ => [.cname]

/-- The terminals that a symbol can start with. -/
def Symbol.starts : Symbol → List Terminal
  | .terminal t => [t]
  | .nonterminal n => n.starts

/-- What the first symbol of a production starts with, the nonterminal starts with. -/
theorem Nonterminal.starts_expansion (n : Nonterminal) :
    ∀ rhs ∈ n.expansions, ∃ x xs, rhs = x :: xs ∧ ∀ t ∈ x.starts, t ∈ n.starts := by
  have h : ∀ rhs ∈ n.expansions,
      (match rhs with | [] => false | x :: _ => x.starts.all n.starts.contains) = true := by
    cases n with
    | rule r => cases r <;> decide
    | many r => cases r <;> decide
  intro rhs hrhs
  have hcheck := h rhs hrhs
  cases rhs with
  | nil => exact absurd hcheck (by simp)
  | cons x xs => exact ⟨x, xs, rfl, by simpa using hcheck⟩

namespace Derivation

/-- A derivation starts with a terminal that its symbol can start with. -/
theorem starts_tokens (d : Derivation) (h : d.Obeys Production.IsLegal) (rest : List Token) :
    ∃ t ∈ d.symbol.starts, nextKind (d.tokens ++ rest) = some t := by
  induction d generalizing rest with
  | leaf t => exact ⟨t.kind, by simp [symbol, Symbol.starts], rfl⟩
  | node p ds ih =>
    obtain ⟨hp, hrhs, hds⟩ := obeys_node.mp h
    obtain ⟨x, xs, hx, hsub⟩ := p.lhs.starts_expansion p.rhs hp
    obtain ⟨d, es, rfl, rfl, -⟩ := map_eq_cons_iff.mp (hrhs.trans hx)
    obtain ⟨t, ht, hnext⟩ := ih d mem_cons_self (hds d mem_cons_self)
      (tokensAll es ++ rest)
    exact ⟨t, hsub t ht, by simpa only [tokens, tokensAll, append_assoc] using hnext⟩

/-- The same for several derivations. -/
theorem starts_tokensAll {d : Derivation} {ds : List Derivation}
    (h : ObeyAll Production.IsLegal (d :: ds)) (rest : List Token) :
    ∃ t ∈ d.symbol.starts, nextKind (tokensAll (d :: ds) ++ rest) = some t := by
  simpa only [tokensAll, append_assoc] using d.starts_tokens h.1 (tokensAll ds ++ rest)

end Derivation

/-! ### Blocks between `begin` and `end` -/

/-- A block that is a single statement. -/
def bareBlock : Production := ⟨.rule .block, [.nonterminal (.rule .statement)]⟩

/-- A production of the grammar, other than that of a block without `begin` and `end`. -/
def Production.IsBraced (p : Production) : Prop := p.IsLegal ∧ p ≠ bareBlock

/-- The phrases that may end with an `if` without an `else`, if no block is bare. -/
def Symbol.mayHang : Symbol → Bool
  | .nonterminal (.rule .ifStatement) | .nonterminal (.rule .statement)
  | .nonterminal (.many .statements) => true
  | _ => false

/-- No symbol that may hang is followed by one that may start with `else`. -/
def Symbol.keepElse : List Symbol → Bool
  | [] => true
  | [_] => true
  | x :: y :: ys => (!x.mayHang || !y.starts.contains .kwElse) && Symbol.keepElse (y :: ys)

/-- A production of braces hangs only if its last symbol may, and keeps its `else` apart. -/
theorem Nonterminal.hang_expansion (n : Nonterminal) :
    ∀ rhs ∈ n.expansions, Symbol.keepElse rhs = true ∧
      (⟨n, rhs⟩ ≠ bareBlock → ∀ x ∈ rhs.getLast?, x.mayHang = true →
        (Symbol.nonterminal n).mayHang = true) := by
  cases n with
  | rule r => cases r <;> decide
  | many r => cases r <;> decide

namespace Derivation

variable {allowed : Production → Prop} {ds : List Derivation}

/-- What hangs is a phrase that may, if a production may hang whenever its last symbol may. -/
theorem symbol_of_hangs {mayHang : Symbol → Bool} (hif : mayHang (.nonterminal openIf.lhs) = true)
    (hlast : ∀ p, allowed p → ∀ x ∈ p.rhs.getLast?, mayHang x = true →
      mayHang (.nonterminal p.lhs) = true)
    (d : Derivation) (hd : d.Obeys allowed) (h : d.hangs = true) : mayHang d.symbol = true := by
  induction d with
  | leaf t => simp [hangs] at h
  | node p ds ih =>
    obtain ⟨hp, hrhs, hds⟩ := obeys_node.mp hd
    simp only [hangs, Bool.or_eq_true, decide_eq_true_eq] at h
    rcases h with rfl | h
    · exact hif
    · rw [lastHangs_eq, Option.any_eq_true] at h
      obtain ⟨d, hmem, hhang⟩ := h
      have hd := mem_of_getLast? hmem
      exact hlast p hp d.symbol (by simp [← hrhs, hmem]) (ih d hd (hds d hd) hhang)

/-- Derivations that follow one another settle every `else` if each does, and if none that may
    hang stands before one that may start with `else`. -/
theorem settledAll_of_keepElse (hds : ObeyAll Production.IsBraced ds)
    (hsettled : ∀ d ∈ ds, d.Settled) (hkeep : Symbol.keepElse (ds.map symbol) = true) :
    SettledAll ds := by
  induction ds with
  | nil => trivial
  | cons d ds ih =>
    obtain ⟨hd, htail⟩ := forall_mem_cons.mp hsettled
    cases ds with
    | nil => exact ⟨hd, fun _ => by simp [tokensAll, nextKind], trivial⟩
    | cons e es =>
      simp only [map_cons, Symbol.keepElse, Bool.and_eq_true] at hkeep
      refine ⟨hd, fun hhangs helse => ?_, ih hds.2 htail hkeep.2⟩
      obtain ⟨t, ht, hnext⟩ := e.starts_tokens (hds.2.1.mono (fun _ hp => hp.1)) (tokensAll es)
      rw [← tokensAll, helse, Option.some.injEq] at hnext
      have hmay : d.symbol.mayHang = true := symbol_of_hangs rfl
        (fun p hp => (p.lhs.hang_expansion p.rhs hp.1).2 hp.2) d hds.1 hhangs
      simp only [hmay, Bool.not_true, Bool.false_or, Bool.not_eq_true', contains_eq_mem,
        decide_eq_false_iff_not] at hkeep
      exact hkeep.1 (hnext ▸ ht)

/-- **Braces settle every `else`.** -/
theorem settled_of_braced (d : Derivation) (h : d.Obeys Production.IsBraced) : d.Settled := by
  induction d with
  | leaf t => trivial
  | node p ds ih =>
    obtain ⟨hp, hrhs, hds⟩ := h
    have hkeep := (p.lhs.hang_expansion p.rhs hp.1).1
    exact settledAll_of_keepElse hds (fun d hd => ih d hd (obeyAll_iff.mp hds d hd))
      (hrhs ▸ hkeep)

end Derivation

end Ordo
