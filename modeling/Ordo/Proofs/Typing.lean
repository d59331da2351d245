import Ordo.Proofs.Numerals
import Ordo.Proofs.Values

namespace Ordo

/-!
# Types of what is built

What stands for a derivation, such as its tree or what is built from it, depends on the symbol
that it derives.  A typing says what stands for each symbol.  If building what the right side of
a rule may have never fails and gives what the rule should have, then every derivation has values
of its type.

* `Typing`, `Typing.OfPhrase` — what stands for tokens, rules and repetitions, and so for phrases;
* `Typing.exists_ofPhrase` — what stands for the derivations of a phrase, part by part;
* `Typing.IsClosed` — building from values of the right types gives values of the right types;
* `Typing.exists_values` — a derivation has values of its type, unless a whole number in it is too
  long.
-/

open Derivation List

/-- The values that tokens of a kind have that were cut from a text. -/
def Terminal.GivesLexed (k : Terminal) (v : Value) : Prop :=
  ∃ t : Token, t.IsLexed ∧ t.kind = k ∧ k.value (.token k.name t.text) = .ok v

/-- What stands for tokens, for rules and for repetitions. -/
structure Typing (α : Type) where
  token : Terminal → α → Prop
  rule : Rule → α → Prop
  many : Repetition → List α → Prop

namespace Typing

section Phrases

variable {α : Type} (T : Typing α)

/-- What stands for a symbol.  For tokens that are not kept there is nothing. -/
def OfSymbol : Symbol → List α → Prop
  | .terminal t, vs => if t.isKept then ∃ v, vs = [v] ∧ T.token t v else vs = []
  | .nonterminal (.rule r), vs => ∃ v, vs = [v] ∧ T.rule r v
  | .nonterminal (.many m), vs => T.many m vs

/-- What starts with something for a symbol and goes on in a given way. -/
def StartsWith : Symbol → (List α → Prop) → List α → Prop
  | .terminal t, rest, vs =>
      match t.isKept with
      | true => ∃ v us, vs = v :: us ∧ T.token t v ∧ rest us
      | false => rest vs
  | .nonterminal (.rule r), rest, vs => ∃ v us, vs = v :: us ∧ T.rule r v ∧ rest us
  | .nonterminal (.many m), rest, vs => ∃ ws us, vs = ws ++ us ∧ T.many m ws ∧ rest us

/-- What starts with something for a phrase and goes on in a given way.  Read from left to right,
    this is the list of what a phrase may have. -/
def Reads : Phrase → (List α → Prop) → List α → Prop
  | .symbol s, rest, vs => T.StartsWith s rest vs
  | .seq p q, rest, vs => Reads p (Reads q rest) vs
  | .choice p q, rest, vs => Reads p rest vs ∨ Reads q rest vs
  | .opt p, rest, vs => Reads p rest vs ∨ rest vs

/-- What stands for a phrase. -/
def OfPhrase (p : Phrase) (vs : List α) : Prop := T.Reads p (· = []) vs

variable {T}

attribute [local simp] StartsWith

theorem startsWith_iff {s : Symbol} {rest : List α → Prop} {vs : List α} :
    T.StartsWith s rest vs ↔ ∃ ws us, vs = ws ++ us ∧ T.OfSymbol s ws ∧ rest us := by
  cases s with
  | terminal t =>
    cases hkept : t.isKept with
    | true => simpa [OfSymbol, hkept] using exists_comm
    | false => simp [OfSymbol, hkept]
  | nonterminal n =>
    cases n with
    | rule r => simpa [OfSymbol] using exists_comm
    | many m => rfl

/-- Something that stands for derivations one after another. -/
structure IsYield (R : List Derivation → List α → Prop) : Prop where
  nil : R [] []
  append : ∀ {ds es vs ws}, R ds vs → R es ws → R (ds ++ es) (vs ++ ws)

variable {p : Phrase} {ds : List Derivation}

theorem exists_reads {R : List Derivation → List α → Prop} (hR : IsYield R)
    (hds : ∀ d ∈ ds, ∃ vs, R [d] vs ∧ T.OfSymbol d.symbol vs) (h : ds.map symbol ∈ p.expansions) :
    ∃ vs, R ds vs ∧ ∀ (rest : List α → Prop) us, rest us → T.Reads p rest (vs ++ us) := by
  induction p generalizing ds with
  | symbol s =>
    obtain ⟨d, rfl, hd⟩ : ∃ d, ds = [d] ∧ d.symbol = s := by
      simpa [Phrase.expansions, map_eq_cons_iff] using h
    obtain ⟨vs, hvs, hsymbol⟩ := hds d mem_cons_self
    exact ⟨vs, hvs, fun rest us hus => startsWith_iff.mpr ⟨vs, us, rfl, hd ▸ hsymbol, hus⟩⟩
  | seq p q ihp ihq =>
    obtain ⟨xs, hxs, ys, hys, hsplit⟩ : ∃ xs ∈ p.expansions, ∃ ys ∈ q.expansions,
        xs ++ ys = ds.map symbol := by
      simpa [Phrase.expansions] using h
    obtain ⟨ds₁, ds₂, rfl, rfl, rfl⟩ := map_eq_append_iff.mp hsplit.symm
    obtain ⟨h₁, h₂⟩ := forall_mem_append.mp hds
    obtain ⟨vs, hvs, hp⟩ := ihp h₁ hxs
    obtain ⟨ws, hws, hq⟩ := ihq h₂ hys
    refine ⟨vs ++ ws, hR.append hvs hws, fun rest us hus => ?_⟩
    rw [append_assoc]
    exact hp _ _ (hq rest us hus)
  | choice p q ihp ihq =>
    rcases mem_append.mp h with h | h
    · obtain ⟨vs, hvs, hp⟩ := ihp hds h
      exact ⟨vs, hvs, fun rest us hus => .inl (hp rest us hus)⟩
    · obtain ⟨vs, hvs, hq⟩ := ihq hds h
      exact ⟨vs, hvs, fun rest us hus => .inr (hq rest us hus)⟩
  | opt p ih =>
    rcases mem_append.mp h with h | h
    · obtain ⟨vs, hvs, hp⟩ := ih hds h
      exact ⟨vs, hvs, fun rest us hus => .inl (hp rest us hus)⟩
    · obtain rfl : ds = [] := by simpa using h
      exact ⟨[], hR.nil, fun rest us hus => .inr hus⟩

/-- **What stands for the derivations of a phrase**, part by part. -/
theorem exists_ofPhrase {R : List Derivation → List α → Prop} (hR : IsYield R)
    (hds : ∀ d ∈ ds, ∃ vs, R [d] vs ∧ T.OfSymbol d.symbol vs)
    (h : ds.map symbol ∈ p.expansions) : ∃ vs, R ds vs ∧ T.OfPhrase p vs := by
  obtain ⟨vs, hvs, hreads⟩ := exists_reads hR hds h
  exact ⟨vs, hvs, by simpa [OfPhrase] using hreads (· = []) [] rfl⟩

/-- What stands for a phrase stands for it in a coarser typing. -/
theorem OfPhrase.mono {T U : Typing α} (htoken : ∀ t v, T.token t v → U.token t v)
    (hrule : ∀ r v, T.rule r v → U.rule r v) (hmany : ∀ m vs, T.many m vs → U.many m vs)
    {vs : List α} (h : T.OfPhrase p vs) : U.OfPhrase p vs := by
  have hsymbol : ∀ s ws, T.OfSymbol s ws → U.OfSymbol s ws := by
    rintro (t | r | m) ws hws
    · cases hkept : t.isKept <;> simp only [OfSymbol, hkept, if_true] at hws ⊢
      exacts [hws, hws.imp fun v => .imp_right (htoken t v)]
    · exact hws.imp fun v => .imp_right (hrule r v)
    · exact hmany m ws hws
  have hreads : ∀ (p : Phrase) {rest rest' : List α → Prop} (_ : ∀ us, rest us → rest' us) vs,
      T.Reads p rest vs → U.Reads p rest' vs := by
    intro p
    induction p with
    | symbol s =>
      intro rest rest' hrest vs h
      obtain ⟨ws, us, rfl, hws, hus⟩ := startsWith_iff.mp h
      exact startsWith_iff.mpr ⟨ws, us, rfl, hsymbol s ws hws, hrest us hus⟩
    | seq p q ihp ihq => exact fun hrest vs h => ihp (ihq hrest) vs h
    | choice p q ihp ihq => exact fun hrest vs h => h.imp (ihp hrest vs) (ihq hrest vs)
    | opt p ih => exact fun hrest vs h => h.imp (ih hrest vs) (hrest vs)
  exact hreads p (fun _ => id) vs h

/-- What holds of all that stands for tokens, rules and repetitions holds of all parts of a
    phrase. -/
theorem OfPhrase.forall_mem {T : Typing α} {Q : α → Prop}
    (htoken : ∀ t v, T.token t v → Q v) (hrule : ∀ r v, T.rule r v → Q v)
    (hmany : ∀ m vs, T.many m vs → ∀ v ∈ vs, Q v) {vs : List α}
    (h : T.OfPhrase p vs) : ∀ v ∈ vs, Q v := by
  have hsymbol : ∀ s ws, T.OfSymbol s ws → ∀ v ∈ ws, Q v := by
    rintro (t | r | m) ws hws
    · cases hkept : t.isKept <;> simp [OfSymbol, hkept] at hws <;> grind
    · obtain ⟨v, rfl, hv⟩ := hws
      exact forall_mem_singleton.mpr (hrule r v hv)
    · exact hmany m ws hws
  have hreads : ∀ (p : Phrase) {rest : List α → Prop} (_ : ∀ us, rest us → ∀ v ∈ us, Q v) vs,
      T.Reads p rest vs → ∀ v ∈ vs, Q v := by
    intro p
    induction p with
    | symbol s =>
      intro rest hrest vs h
      obtain ⟨ws, us, rfl, hws, hus⟩ := startsWith_iff.mp h
      exact forall_mem_append.mpr ⟨hsymbol s ws hws, hrest us hus⟩
    | seq p q ihp ihq => exact fun hrest vs h => ihp (ihq hrest) vs h
    | choice p q ihp ihq => exact fun hrest vs h => h.elim (ihp hrest vs) (ihq hrest vs)
    | opt p ih => exact fun hrest vs h => h.elim (ih hrest vs) (hrest vs)
  refine hreads p ?_ vs h
  rintro us rfl
  exact forall_mem_nil _

end Phrases

/-! ### Values -/

/-- Building from values of the right types gives values of the right types. -/
structure IsClosed (T : Typing Value) : Prop where
  token : ∀ t v, t.GivesLexed v → T.token t v
  rule : ∀ r parts, T.OfPhrase r.phrase parts → ∃ v, Build.ofRule r parts = .ok v ∧ T.rule r v
  one : ∀ m vs, T.OfPhrase m.phrase vs → T.many m vs
  more : ∀ m vs ws, T.many m vs → T.OfPhrase m.phrase ws → T.many m (vs ++ ws)

variable {T : Typing Value}

theorem isYield_valuesAll : IsYield fun ds vs => valuesAll ds = .ok vs where
  nil := rfl
  append hds hes := valuesAll_append_eq_ok_iff.mpr ⟨_, _, hds, hes, rfl⟩

theorem exists_valuesAll_of_expansion {p : Phrase} {ds : List Derivation}
    (hds : ∀ d ∈ ds, ∃ vs, d.values = .ok vs ∧ T.OfSymbol d.symbol vs)
    (h : ds.map symbol ∈ p.expansions) : ∃ vs, valuesAll ds = .ok vs ∧ T.OfPhrase p vs := by
  refine exists_ofPhrase isYield_valuesAll (fun d hd => ?_) h
  rw [valuesAll_singleton]
  exact hds d hd

/-- A token has its value, or is left out. -/
theorem exists_values_leaf (hT : T.IsClosed) {t : Token} (ht : t.IsLexed)
    (hshort : t.isLongWhole = false) :
    ∃ vs, (leaf t).values = .ok vs ∧ T.OfSymbol (.terminal t.kind) vs := by
  by_cases hkept : t.kind.isKept = true
  · obtain ⟨v, hv⟩ := (Token.exists_value_iff ht).mpr hshort
    have htoken := hT.token t.kind v ⟨t, ht, rfl, hv⟩
    refine ⟨[v], ?_, by simpa [OfSymbol, hkept] using htoken⟩
    simp [values, forest, hkept, ParseTree.buildAll, ParseTree.build, hv,
      ParseTree.attempt]
  · refine ⟨[], ?_, by simp [OfSymbol, hkept]⟩
    simp [values, forest, hkept, ParseTree.buildAll]

/-- **Derivations have values of their types**, if no whole number in them is too long. -/
theorem exists_values (hT : T.IsClosed) (d : Derivation) (hd : d.IsSound)
    (hshort : ∀ t ∈ d.tokens, t.isLongWhole = false) :
    ∃ vs, d.values = .ok vs ∧ T.OfSymbol d.symbol vs := by
  induction d with
  | leaf t =>
    exact exists_values_leaf hT (hd.lexed t (by simp [tokens]))
      (hshort t (by simp [tokens]))
  | node p ds ih =>
    have hds : ∀ d ∈ ds, ∃ vs, d.values = .ok vs ∧ T.OfSymbol d.symbol vs := fun d hmem =>
      ih d hmem (hd.of_mem_children d hmem) fun t ht =>
        hshort t (mem_tokensAll.mpr ⟨d, hmem, ht⟩)
    obtain ⟨hlegal, hsymbols⟩ := hd.isLegal
    rw [← hsymbols] at hlegal
    cases hp : p.lhs with
    | rule r =>
      rw [hp] at hlegal
      obtain ⟨parts, hparts, hyields⟩ := exists_valuesAll_of_expansion hds hlegal
      obtain ⟨v, hv, hrule⟩ := hT.rule r parts hyields
      refine ⟨[v], (values_rule_eq_ok_iff hp).mpr ⟨parts, v, hparts, hv, rfl⟩, ?_⟩
      simpa [symbol, hp, OfSymbol] using hrule
    | many m =>
      rw [hp] at hlegal
      rw [values_many hp, symbol, hp]
      rcases mem_append.mp hlegal with hlegal | hlegal
      · obtain ⟨vs, hvs, hyields⟩ := exists_valuesAll_of_expansion hds hlegal
        exact ⟨vs, hvs, hT.one m vs hyields⟩
      · -- a shorter repetition, and one more occurrence
        obtain ⟨xs, hxs, hsplit⟩ := mem_map.mp hlegal
        obtain ⟨c, cs, rfl, hc, rfl⟩ := map_eq_cons_iff.mp hsplit.symm
        obtain ⟨⟨vs, hvs, hmany⟩, hcs⟩ := forall_mem_cons.mp hds
        obtain ⟨ws, hws, hyields⟩ := exists_valuesAll_of_expansion hcs hxs
        rw [hc] at hmany
        exact ⟨vs ++ ws, valuesAll_cons_eq_ok_iff.mpr ⟨vs, ws, hvs, hws, rfl⟩,
          hT.more m vs ws hmany hyields⟩

end Typing

/-! ### Values of programs -/

theorem Derivation.leaf_mem_parts {t : Token} (d : Derivation) (h : t ∈ d.tokens) :
    leaf t ∈ d.parts := by
  induction d with
  | leaf u => simpa [parts, tokens] using h
  | node p ds ih =>
    obtain ⟨d, hd, ht⟩ := mem_tokensAll.mp h
    exact mem_parts_node.mpr (.inr ⟨d, hd, ih d hd ht⟩)

variable {vs : List Value} {d : Derivation} {T : Typing Value} {v : Value}

/-- A token that has a value is not too long. -/
theorem Token.isLongWhole_of_values {t : Token} (ht : t.IsLexed)
    (h : (leaf t).values = .ok vs) : t.isLongWhole = false := by
  by_cases hkept : t.kind.isKept = true
  · rw [values, forest, if_pos hkept] at h
    obtain ⟨v, -, hv, -, -⟩ := ParseTree.buildAll_cons_eq_ok_iff.mp h
    refine (Token.exists_value_iff ht).mp ⟨v, ?_⟩
    rw [ParseTree.build] at hv
    cases hvalue : t.kind.value (.token t.kind.name t.text) with
    | error e => simp [hvalue, ParseTree.attempt] at hv
    | ok w => simpa [hvalue, ParseTree.attempt] using hv
  · have hkind : t.kind ≠ .number := by
      rintro hkind
      exact hkept (hkind ▸ rfl)
    simp [Token.isLongWhole, hkind]

/-- No number in a derivation that has values is too long. -/
theorem Derivation.IsSound.isLongWhole_of_values (hd : d.IsSound) (h : d.values = .ok vs) :
    ∀ t ∈ d.tokens, t.isLongWhole = false := by
  intro t ht
  obtain ⟨ws, hws⟩ := d.exists_values_of_mem_parts h _ (d.leaf_mem_parts ht)
  exact Token.isLongWhole_of_values (hd.lexed t ht) hws

/-- What is built from a derivation by a rule is of the type that the rule gives it. -/
theorem Typing.IsClosed.of_values (hT : T.IsClosed) {r : Rule} (hd : d.IsSound)
    (hr : d.symbol = r.symbol) (h : d.values = .ok [v]) : T.rule r v := by
  have hshort := hd.isLongWhole_of_values h
  obtain ⟨vs, hvs, htype⟩ := Typing.exists_values hT d hd hshort
  obtain rfl : vs = [v] := Except.ok.inj (hvs.symm.trans h)
  rw [hr] at htype
  obtain ⟨w, hw, hrule⟩ := htype
  obtain rfl : v = w := singleton_inj.mp hw
  exact hrule

/-- What a text stands for is of the type of whole programs. -/
theorem Typing.IsClosed.of_programOfText (hT : T.IsClosed) {text : String}
    (h : programOfText text = .ok v) : T.rule .start v := by
  obtain ⟨d, hd, hv⟩ := programOfText_eq_ok_iff.mp h
  obtain ⟨hsound, hstart⟩ := derive_isSound hd
  exact hT.of_values hsound hstart hv

end Ordo
