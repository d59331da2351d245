import Ordo.Proofs.Values
import Ordo.Proofs.Written

namespace Ordo

/-!
# Deriving lexemes and building values

To say what a text is parsed and built into, it is enough to follow the productions of the
grammar: each takes lexemes and values of its symbols to lexemes and values of its left side.

* `Derives` — lexemes that some symbols derive, with the values that are built from them;
* `Derives.append`, `Derives.mark`, `Derives.keep` — sequences of symbols, and single tokens;
* `Derives.rule`, `Derives.many` — productions of rules and of repetitions;
* `DerivesMaybe` — an optional symbol;
* `DerivesChain` — an operand, or an operand and a repetition of more of them.
-/

open Derivation List

instance (p : Production) : Decidable p.IsLegal := inferInstanceAs (Decidable (_ ∈ _))

instance (p : Production) : Decidable p.IsBraced := inferInstanceAs (Decidable (_ ∧ _))

/-- A token that leaves nothing has only one text. -/
theorem Lexeme.isFree_mark {t : Terminal} (ht : t.isKept = false) : (mark t).IsFree := by
  have hspelling : t.spelling? = some (t.spelling?.getD "") := by
    cases t <;> first | rfl | exact absurd ht (by decide)
  exact .fixed hspelling

/-! ### Productions -/

/-- Lexemes that some symbols derive, wherever they stand in a text, with the values that are
    built from the derivations.  Every lexeme can be told from its text, and every block is put
    between `begin` and `end`. -/
structure Derives (xs : List Symbol) (ls : List Lexeme) (vs : List Value) : Prop where
  free : ∀ l ∈ ls, l.IsFree
  derivation : ∀ ts : List Token, ts.map Token.lexeme = ls → ∃ ds : List Derivation,
    ObeyAll Production.IsBraced ds ∧ ds.map symbol = xs ∧
      tokensAll ds = ts ∧ valuesAll ds = .ok vs

namespace Derives

variable {xs ys : List Symbol} {ls us : List Lexeme} {vs ws : List Value}

theorem append (h : Derives xs ls vs) (h' : Derives ys us ws) :
    Derives (xs ++ ys) (ls ++ us) (vs ++ ws) := by
  refine ⟨fun l hl => (mem_append.mp hl).elim (h.free l) (h'.free l), fun ts hts => ?_⟩
  obtain ⟨ts₁, ts₂, rfl, hts₁, hts₂⟩ := map_eq_append_iff.mp hts
  obtain ⟨ds, hobeys, hsymbols, htokens, hvalues⟩ := h.derivation ts₁ hts₁
  obtain ⟨es, hobeys', hsymbols', htokens', hvalues'⟩ := h'.derivation ts₂ hts₂
  refine ⟨ds ++ es, obeyAll_append_iff.mpr ⟨hobeys, hobeys'⟩, ?_, ?_, ?_⟩
  · rw [map_append, hsymbols, hsymbols']
  · rw [tokensAll_append, htokens, htokens']
  · exact valuesAll_append_eq_ok_iff.mpr ⟨vs, ws, hvalues, hvalues', rfl⟩

theorem nil : Derives [] [] [] :=
  ⟨by simp, fun _ hts => ⟨[], trivial, rfl, (map_eq_nil_iff.mp hts).symm, rfl⟩⟩

variable {l : Lexeme} {v : Value} {m : Repetition}

/-- A token and what is built from it. -/
theorem token (hl : l.IsFree) (h : ∀ t : Token, t.lexeme = l → (leaf t).values = .ok vs) :
    Derives [.terminal l.kind] [l] vs := by
  refine ⟨by simpa using hl, fun ts hts => ?_⟩
  obtain ⟨t, rfl, ht⟩ := map_eq_singleton_iff.mp hts
  refine ⟨[.leaf t], ?_, ?_, ?_, ?_⟩
  · simp only [ObeyAll, Obeys, and_self]
  · simp only [map_cons, map_nil, symbol]
    rw [show t.kind = l.kind from congrArg Lexeme.kind ht]
  · simp only [tokensAll, tokens, append_nil]
  · rw [valuesAll_singleton]
    exact h t ht

/-- A token that leaves nothing. -/
theorem mark {k : Terminal} (hk : k.isKept = false) : Derives [.terminal k] [Lexeme.mark k] [] :=
  token (Lexeme.isFree_mark hk) fun t ht => by
    have hkind : t.kind = k := congrArg Lexeme.kind ht
    simp [values, forest, hkind, hk, ParseTree.buildAll]

/-- What stands after a token that leaves nothing. -/
theorem past (h : Derives xs ls vs) (k : Terminal) (hk : k.isKept = false := by rfl) :
    Derives (.terminal k :: xs) (Lexeme.mark k :: ls) vs := (mark hk).append h

/-- What stands between two tokens that leave nothing. -/
theorem between (h : Derives xs ls vs) (a b : Terminal) (ha : a.isKept = false := by rfl)
    (hb : b.isKept = false := by rfl) :
    Derives (.terminal a :: (xs ++ [.terminal b]))
      (Lexeme.mark a :: (ls ++ [Lexeme.mark b])) vs := by
  simpa using (h.append (mark hb)).past a ha

/-- A token that leaves a value. -/
theorem keep (hl : l.IsFree) (hk : l.kind.isKept = true)
    (hv : l.kind.value (.token l.kind.name l.text) = .ok v) : Derives [.terminal l.kind] [l] [v] :=
  token hl fun t ht => by
    have hkind : t.kind = l.kind := congrArg Lexeme.kind ht
    have htext : t.text = l.text := congrArg Lexeme.text ht
    simp [values, forest, hkind, hk, htext, ParseTree.buildAll,
      ParseTree.build, ParseTree.attempt, hv]

/-- A production of a rule: its value is made from the values of its symbols. -/
theorem rule {r : Rule} (h : Derives xs ls vs)
    (hp : Production.IsBraced ⟨.rule r, xs⟩) (hv : Build.ofRule r vs = .ok v) :
    Derives [r.symbol] ls [v] := by
  refine ⟨h.free, fun ts hts => ?_⟩
  obtain ⟨ds, hobeys, hsymbols, htokens, hvalues⟩ := h.derivation ts hts
  refine ⟨[.node ⟨.rule r, xs⟩ ds], ?_, rfl, ?_, ?_⟩
  · simp only [ObeyAll, Obeys, and_true]
    exact ⟨hp, hsymbols, hobeys⟩
  · simp only [tokensAll, tokens, append_nil, htokens]
  · rw [valuesAll_singleton]
    exact (values_rule_eq_ok_iff rfl).mpr ⟨vs, v, hvalues, hv, rfl⟩

/-- A production that passes on the value of its only symbol. -/
theorem unit {r : Rule} (x : Rule) (h : Derives [x.symbol] ls [v])
    (hp : Production.IsBraced ⟨.rule r, [x.symbol]⟩) (hv : Build.ofRule r [v] = .ok v) :
    Derives [r.symbol] ls [v] := h.rule hp hv

/-- A production of a repetition: the values of its symbols are passed on. -/
theorem many (h : Derives xs ls vs)
    (hp : Production.IsBraced ⟨.many m, xs⟩) : Derives [m.symbol] ls vs := by
  refine ⟨h.free, fun ts hts => ?_⟩
  obtain ⟨ds, hobeys, hsymbols, htokens, hvalues⟩ := h.derivation ts hts
  refine ⟨[.node ⟨.many m, xs⟩ ds], ?_, rfl, ?_, ?_⟩
  · simp only [ObeyAll, Obeys, and_true]
    exact ⟨hp, hsymbols, hobeys⟩
  · simp only [tokensAll, tokens, append_nil, htokens]
  · rw [valuesAll_singleton, values_many rfl]
    exact hvalues

/-- A repetition grows by one more occurrence of its phrase. -/
theorem more {x : Symbol} (h : Derives [x, m.symbol] ls vs)
    (h' : Derives ys us ws) (hp : Production.IsBraced ⟨.many m, m.symbol :: ys⟩) :
    Derives [x, m.symbol] (ls ++ us) (vs ++ ws) := by
  refine ⟨(h.append h').free, fun ts hts => ?_⟩
  obtain ⟨ts₁, ts₂, rfl, hts₁, hts₂⟩ := map_eq_append_iff.mp hts
  obtain ⟨ds, hobeys, hsymbols, htokens, hvalues⟩ := h.derivation ts₁ hts₁
  obtain ⟨es, hobeys', hsymbols', htokens', hvalues'⟩ := h'.derivation ts₂ hts₂
  obtain ⟨d, ds, rfl, hd, hds⟩ := map_eq_cons_iff.mp hsymbols
  obtain ⟨e, ds, rfl, he, hnil⟩ := map_eq_cons_iff.mp hds
  obtain rfl := map_eq_nil_iff.mp hnil
  simp only [ObeyAll, and_true] at hobeys
  simp only [tokensAll, append_nil] at htokens
  -- the occurrence joins the repetition, so the operand before it stays as it is
  refine ⟨[d, .node ⟨.many m, m.symbol :: ys⟩ (e :: es)], ?_, ?_, ?_, ?_⟩
  · simp only [ObeyAll, Obeys, and_true, map_cons, he, hsymbols',
      true_and]
    exact ⟨hobeys.1, hp, hobeys.2, hobeys'⟩
  · simp only [map_cons, map_nil, hd]
    rfl
  · simp only [tokensAll, tokens, append_nil, htokens',
      ← append_assoc, htokens]
  · obtain ⟨v₁, v₂, hv₁, hv₂, rfl⟩ := valuesAll_cons_eq_ok_iff.mp hvalues
    rw [valuesAll_singleton] at hv₂
    rw [valuesAll_cons_eq_ok_iff, valuesAll_singleton,
      values_many rfl]
    refine ⟨v₁, v₂ ++ ws, hv₁, ?_, append_assoc ..⟩
    exact valuesAll_cons_eq_ok_iff.mpr ⟨v₂, ws, hv₂, hvalues', rfl⟩

end Derives

variable {ls : List Lexeme} {vs : List Value} {x : Symbol}

theorem Derives.eq_nil (h : Derives [] ls vs) : vs = [] := by
  have hlexemes : (ls.map fun l => Token.mk l.kind l.text Place.origin).map Token.lexeme = ls := by
    simp [Token.lexeme, Function.comp_def]
  obtain ⟨ds, -, hsymbols, -, hvalues⟩ := h.derivation _ hlexemes
  obtain rfl := map_eq_nil_iff.mp hsymbols
  simpa [valuesAll, forests, ParseTree.buildAll] using hvalues.symm

/-- What an optional symbol derives. -/
def DerivesMaybe (x : Symbol) (ls : List Lexeme) (vs : List Value) : Prop :=
  ∃ xs, (xs = [] ∨ xs = [x]) ∧ Derives xs ls vs

theorem DerivesMaybe.nil : DerivesMaybe x [] [] := ⟨[], .inl rfl, Derives.nil⟩

theorem Derives.maybe (h : Derives [x] ls vs) :
    DerivesMaybe x ls vs := ⟨[x], .inr rfl, h⟩

theorem DerivesMaybe.snoc {m : Repetition} {us : List Lexeme} {ws : List Value}
    (h : DerivesMaybe m.symbol ls vs) (h' : Derives [x] us ws)
    (hp : Production.IsBraced ⟨.many m, [x]⟩) (hp' : Production.IsBraced ⟨.many m, [m.symbol, x]⟩) :
    DerivesMaybe m.symbol (ls ++ us) (vs ++ ws) := by
  obtain ⟨xs, rfl | rfl, hls⟩ := h
  · exact ((hls.append h').many hp).maybe
  · exact ((hls.append h').many hp').maybe

/-- What a list with something between its items derives: one item, or an item and a repetition
    of more of them. -/
def DerivesChain (x : Rule) (m : Repetition) (ls : List Lexeme) (vs : List Value) : Prop :=
  Derives [x.symbol] ls vs ∨ Derives [x.symbol, m.symbol] ls vs

namespace DerivesChain

variable {x r : Rule} {m : Repetition} {ls us : List Lexeme} {vs ws : List Value}

theorem snoc {ys : List Symbol} (h : DerivesChain x m ls vs) (h' : Derives ys us ws)
    (hp : Production.IsBraced ⟨.many m, ys⟩) (hp' : Production.IsBraced ⟨.many m, m.symbol :: ys⟩) :
    DerivesChain x m (ls ++ us) (vs ++ ws) := by
  rcases h with h | h
  · exact .inr (h.append (h'.many hp))
  · exact .inr (h.more h' hp')

theorem rule {v : Value} (h : DerivesChain x m ls vs)
    (hp : Production.IsBraced ⟨.rule r, [x.symbol]⟩)
    (hp' : Production.IsBraced ⟨.rule r, [x.symbol, m.symbol]⟩)
    (hv : Build.ofRule r vs = .ok v) : Derives [r.symbol] ls [v] := by
  rcases h with h | h
  · exact h.rule hp hv
  · exact h.rule hp' hv

end DerivesChain

end Ordo
