import Ordo.Proofs.ParsedTrees

namespace Ordo

/-!
# Parse trees of texts

The parse tree of a text is a node with children as the right side of its rule says, and so are
these.  A syntax tree is built from it unless a whole number in it has too many digits.

* `ParseTree.tokens` — the tokens at the leaves of a parse tree, which are those of its
  derivation that are kept;
* `Typing.trees` — the parse trees that derivations have, with `Typing.exists_children` and
  `Typing.exists_occurrences` to take them apart;
* `Typing.syntaxTrees_of_build` — what is built from them is the syntax tree that its rule gives;
* `Derivation.values_eq_error` — where building fails, and with what error;
* `parse_build_total` — building from the parse tree of a text gives a whole program or fails at a
  number.
-/

open Derivation List ParseTree

/-! ### Tokens -/

mutual

/-- The tokens at the leaves of a parse tree, in order. -/
def ParseTree.tokens : ParseTree → List Token
  | .leaf t => [t]
  | .node _ children => tokensAll children

/-- The tokens at the leaves of several parse trees, in order. -/
def ParseTree.tokensAll : List ParseTree → List Token
  | [] => []
  | t :: ts => t.tokens ++ tokensAll ts

end

theorem ParseTree.tokensAll_append (ts us : List ParseTree) :
    tokensAll (ts ++ us) = tokensAll ts ++ tokensAll us := by
  induction ts with
  | nil => rfl
  | cons t ts ih => simp only [cons_append, tokensAll, ih, append_assoc]

variable (d : Derivation) {ds : List Derivation} {f : BuildFailure}

/-- **The tokens of a parse tree** are those of its derivation that are kept. -/
theorem Derivation.tokensAll_forest :
    ParseTree.tokensAll d.forest = d.tokens.filter (·.kind.isKept) := by
  induction d with
  | leaf t =>
    rw [forest, tokens]
    cases hkept : t.kind.isKept <;> simp [ParseTree.tokensAll, ParseTree.tokens, hkept]
  | node p ds ih =>
    have hall : ParseTree.tokensAll (forests ds) = (tokensAll ds).filter (·.kind.isKept) := by
      induction ds with
      | nil => rfl
      | cons d ds ihs =>
        obtain ⟨hd, hds⟩ := forall_mem_cons.mp ih
        rw [forests, ParseTree.tokensAll_append, hd, ihs hds, tokensAll, filter_append]
    rw [tokens, ← hall, forest]
    cases p.lhs with
    | rule r => simp only [ParseTree.tokensAll, ParseTree.tokens, append_nil]
    | many m => rfl

/-! ### Trees of derivations -/

theorem Derivation.forests_flatten (groups : List (List Derivation)) :
    forests groups.flatten = (groups.map forests).flatten := by
  rw [funext forests_eq_flatMap, flatMap_def, map_flatten, flatten_flatten,
    map_map]
  rfl

/-- The parse trees that derivations have. -/
def Typing.trees : Typing ParseTree where
  token k t := ∃ token : Token, t = .leaf token ∧ token.kind = k
  rule r t := ∃ d : Derivation, d.IsSound ∧ d.symbol = r.symbol ∧ d.forest = [t]
  many m ts := ∃ d : Derivation, d.IsSound ∧ d.symbol = m.symbol ∧ d.forest = ts

namespace Typing

theorem isYield_forests : IsYield fun ds ts => forests ds = ts where
  nil := rfl
  append hds hes := by rw [forests_append, hds, hes]

/-- A derivation has trees for its symbol. -/
theorem trees_ofSymbol {d : Derivation} (hd : d.IsSound) : trees.OfSymbol d.symbol d.forest := by
  cases d with
  | leaf t =>
    rw [symbol, OfSymbol, forest]
    cases t.kind.isKept with
    | true => exact ⟨.leaf t, rfl, t, rfl, rfl⟩
    | false => rfl
  | node p ds =>
    have hsymbol : (node p ds).symbol = .nonterminal p.lhs := rfl
    cases hp : p.lhs with
    | rule r =>
      rw [hp] at hsymbol
      have hforest : (node p ds).forest = [.node r (forests ds)] := by
        rw [forest, hp]
      rw [hsymbol, hforest]
      exact ⟨_, rfl, _, hd, hsymbol, hforest⟩
    | many m =>
      rw [hp] at hsymbol
      rw [hsymbol]
      exact ⟨_, hd, hsymbol, rfl⟩

/-- The trees of the derivations of a phrase. -/
theorem trees_ofPhrase {p : Phrase} {ds : List Derivation} (hds : ∀ d ∈ ds, d.IsSound)
    (h : ds.map symbol ∈ p.expansions) : trees.OfPhrase p (forests ds) := by
  obtain ⟨ts, rfl, hts⟩ := exists_ofPhrase (T := trees) isYield_forests (fun d hd =>
    ⟨d.forest, by simp only [forests, append_nil], trees_ofSymbol (hds d hd)⟩) h
  exact hts

variable {r : Rule} {t : ParseTree} {m : Repetition} {ts : List ParseTree}

/-- **The tree of a rule** is a node whose children stand for the right side of the rule. -/
theorem exists_children (h : trees.rule r t) :
    ∃ children, t = .node r children ∧ trees.OfPhrase r.phrase children := by
  obtain ⟨d, hd, hsymbol, hforest⟩ := h
  cases d with
  | leaf t => simp [symbol] at hsymbol
  | node p ds =>
    have hp : p.lhs = .rule r := by simpa [symbol] using hsymbol
    obtain ⟨hlegal, hsymbols⟩ := hd.isLegal
    rw [hp, ← hsymbols] at hlegal
    rw [forest, hp] at hforest
    exact ⟨_, (singleton_inj.mp hforest).symm, trees_ofPhrase hd.of_mem_children hlegal⟩

/-- **The trees of a repetition** are those of its occurrences, one after another. -/
theorem exists_occurrences (h : trees.many m ts) :
    ∃ groups : List (List ParseTree), ts = groups.flatten ∧
      ∀ g ∈ groups, trees.OfPhrase m.phrase g := by
  obtain ⟨d, hd, hsymbol, rfl⟩ := h
  refine ⟨d.groups.map forests, ?_, ?_⟩
  · rw [forest_eq_forests_groups hsymbol, forests_flatten]
  · intro g hg
    obtain ⟨ds, hds, rfl⟩ := mem_map.mp hg
    obtain ⟨hlegal, hsound⟩ := hd.groups hsymbol ds hds
    exact trees_ofPhrase hsound hlegal

/-- What holds of the trees of each occurrence holds of the trees of a repetition. -/
theorem forall_of_many {P : ParseTree → Prop} (hm : ∀ g, trees.OfPhrase m.phrase g → ∀ t ∈ g, P t)
    (h : trees.many m ts) : ∀ t ∈ ts, P t := by
  obtain ⟨groups, rfl, hgroups⟩ := exists_occurrences h
  intro t ht
  obtain ⟨g, hg, ht⟩ := mem_flatten.mp ht
  exact hm g (hgroups g hg) t ht

/-- Where a rule is repeated or left out, there are trees of that rule. -/
theorem rule_of_many
    (h : trees.many m ts ∨ ts = []) (hm : ∀ g, trees.OfPhrase m.phrase g → trees.OfPhrase r g) :
    ∀ t ∈ ts, trees.rule r t := by
  refine forall_mem_of_many (h.imp_left (forall_of_many fun g hg => ?_))
  obtain ⟨t, _, rfl, ht, rfl⟩ := hm g hg
  exact forall_mem_singleton.mpr ht

/-- **What is built from the tree of a rule** is a syntax tree of the rule. -/
theorem syntaxTrees_of_build {v : Value} (h : trees.rule r t)
    (hv : t.build = .ok v) : syntaxTrees.rule r v := by
  obtain ⟨d, hd, hsymbol, hforest⟩ := h
  have hvalues : d.values = .ok [v] := by
    rw [values, hforest, buildAll_cons_eq_ok_iff]
    exact ⟨v, [], hv, rfl, rfl⟩
  exact isClosed_syntaxTrees.of_values hd hsymbol hvalues

end Typing

variable {tree : ParseTree} {t : Token}

/-- The parse tree of a text is the tree of a derivation by the start rule. -/
theorem exists_derivation_of_parse {text : String} (h : parse text = .ok tree) :
    ∃ d : Derivation, d.IsSound ∧ d.symbol = Rule.start.symbol ∧ d.forest = [tree] := by
  unfold parse at h
  cases hd : derive text.toList with
  | error e =>
    rw [hd] at h
    cases h
  | ok d =>
    rw [hd] at h
    obtain rfl : d.parseTree = tree := Except.ok.inj h
    obtain ⟨hsound, hstart⟩ := derive_isSound hd
    refine ⟨d, hsound, hstart, ?_⟩
    have htrees := Typing.trees_ofSymbol hsound
    rw [hstart] at htrees
    obtain ⟨t, ht, -⟩ := htrees
    rw [parseTree, ht]

/-! ### Where building fails -/

/-- Whole numbers of too many digits, digit by digit. -/
theorem Token.isLongWhole_iff (h : t.IsLexed) :
    t.isLongWhole = true ↔ t.kind = .number ∧ '.' ∉ t.text.toList ∧
      Decimal.digitLimit < t.text.toList.countP Text.isDecimal := by
  have hdigits : t.kind = .number → '.' ∉ t.text.toList →
      t.text.toList.countP Text.isDecimal = t.text.length := by
    intro hkind hpoint
    obtain ⟨whole, -, hwhole, heq | ⟨fraction, -, -, heq⟩⟩ := isNumeral_of_isLexed h hkind
    · rw [countP_eq_length.mpr (heq ▸ hwhole), String.length_toList]
    · rw [heq] at hpoint
      simp at hpoint
  unfold Token.isLongWhole
  simp only [Bool.and_eq_true, decide_eq_true_eq, Bool.not_eq_true', contains_eq_mem,
    decide_eq_false_iff_not, and_assoc]
  constructor
  · rintro ⟨hkind, hpoint, hlong⟩
    exact ⟨hkind, hpoint, by rw [hdigits hkind hpoint]; exact hlong⟩
  · rintro ⟨hkind, hpoint, hlong⟩
    exact ⟨hkind, hpoint, by rw [← hdigits hkind hpoint]; exact hlong⟩

/-- What is said about a number that is too long. -/
def Token.failure (t : Token) : BuildFailure :=
  ⟨Terminal.number.name, .numeral (.tooLong t.text.length)⟩

/-- A token that has no value is a number that is too long. -/
theorem Token.value_eq_error {e : BuildError} (h : t.IsLexed)
    (herror : t.kind.value (.token t.kind.name t.text) = .error e) :
    t.isLongWhole = true ∧ (⟨t.kind.name, e⟩ : BuildFailure) = t.failure := by
  have hlong : t.isLongWhole = true := by
    by_contra hshort
    obtain ⟨v, hv⟩ := (Token.exists_value_iff h).mpr (by simpa using hshort)
    rw [hv] at herror
    cases herror
  obtain ⟨hkind, hpoint, -⟩ := (Token.isLongWhole_iff h).mp hlong
  refine ⟨hlong, ?_⟩
  rw [hkind] at herror ⊢
  have hnumber : numberOf t.text = .error e := by
    have hvalue : numberOf t.text >>= (fun n => .ok (Value.node .number [n])) = .error e := herror
    cases hn : numberOf t.text with
    | error e' =>
      rw [hn] at hvalue
      exact hvalue
    | ok n =>
      rw [hn] at hvalue
      cases hvalue
  rw [Token.failure, numberOf_eq_error (isNumeral_of_isLexed h hkind) hpoint hnumber]

/-- A node whose parts can be built can be built. -/
theorem Derivation.exists_values_node {p : Production} (hd : (node p ds).IsSound)
    {parts : List Value} (h : valuesAll ds = .ok parts) : ∃ vs, (node p ds).values = .ok vs := by
  refine (exists_values_iff hd).mpr fun t ht => ?_
  obtain ⟨d, hmem, htd⟩ := mem_tokensAll.mp ht
  obtain ⟨ws, hws⟩ := exists_values_of_mem h d hmem
  exact (hd.of_mem_children d hmem).isLongWhole_of_values hws t htd

/-- Several derivations fail with the first of them that fails. -/
theorem Derivation.exists_values_eq_error (h : valuesAll ds = .error f) :
    ∃ d ∈ ds, d.values = .error f := by
  induction ds with
  | nil => cases h
  | cons d ds ih =>
    rw [valuesAll, forests, buildAll_append, ← values, ← valuesAll] at h
    cases hd : d.values with
    | error f' =>
      rw [hd] at h
      exact ⟨d, mem_cons_self, hd.trans h⟩
    | ok vs =>
      rw [hd] at h
      cases hall : valuesAll ds with
      | error f' =>
        rw [hall] at h
        obtain ⟨c, hc, hvalues⟩ := ih (hall.trans h)
        exact ⟨c, mem_cons_of_mem d hc, hvalues⟩
      | ok ws =>
        rw [hall] at h
        cases h

/-- **Building fails at a number** that is too long, and with what is said about it. -/
theorem Derivation.values_eq_error (hd : d.IsSound) (h : d.values = .error f) :
    ∃ t ∈ d.tokens, t.isLongWhole = true ∧ f = t.failure := by
  induction d with
  | leaf t =>
    refine ⟨t, by simp [tokens], ?_⟩
    have hlexed := hd.lexed t (by simp [tokens])
    rw [values, forest] at h
    split at h
    · rw [buildAll, build] at h
      cases hvalue : t.kind.value (.token t.kind.name t.text) with
      | error e =>
        rw [hvalue] at h
        obtain ⟨hlong, hfailure⟩ := Token.value_eq_error hlexed hvalue
        exact ⟨hlong, (Except.error.inj h).symm.trans hfailure⟩
      | ok v =>
        rw [hvalue] at h
        cases h
    · cases h
  | node p ds ih =>
    have hparts : valuesAll ds = .error f := by
      cases hall : valuesAll ds with
      | ok parts =>
        obtain ⟨vs, hvs⟩ := exists_values_node hd hall
        rw [hvs] at h
        cases h
      | error f' =>
        cases hp : p.lhs with
        | many m =>
          rw [← values_many hp, h] at hall
          exact hall.symm
        | rule r =>
          rw [values, forest, hp, buildAll, build] at h
          rw [valuesAll] at hall
          rw [hall] at h
          exact h
    obtain ⟨d, hmem, hfails⟩ := exists_values_eq_error hparts
    obtain ⟨t, ht, hlong⟩ := ih d hmem (hd.of_mem_children d hmem) hfails
    exact ⟨t, mem_tokensAll.mpr ⟨d, hmem, ht⟩, hlong⟩

/-- A whole number of a parse tree that has more than 4300 digits. -/
def ParseTree.HasLong (tree : ParseTree) (t : Token) : Prop :=
  t ∈ tree.tokens ∧ t.kind = .number ∧ '.' ∉ t.text.toList ∧
    4300 < t.text.toList.countP Text.isDecimal

/-- The long numbers of a parse tree are those of its derivation, since numbers are kept. -/
theorem ParseTree.hasLong_iff {d : Derivation} (hd : d.IsSound)
    (hforest : d.forest = [tree]) (t : Token) :
    tree.HasLong t ↔ t ∈ d.tokens ∧ t.isLongWhole = true := by
  have hall := d.tokensAll_forest
  rw [hforest, tokensAll, tokensAll, append_nil] at hall
  rw [ParseTree.HasLong, hall, mem_filter]
  constructor
  · rintro ⟨⟨ht, -⟩, hlong⟩
    exact ⟨ht, (Token.isLongWhole_iff (hd.lexed t ht)).mpr hlong⟩
  · rintro ⟨ht, hlong⟩
    have hnumber := (Token.isLongWhole_iff (hd.lexed t ht)).mp hlong
    refine ⟨⟨ht, ?_⟩, hnumber⟩
    rw [hnumber.1]
    rfl

/-- **Building is total.**  From the parse tree of a text that has no number of more than 4300
    digits a program with an algorithm and a main part is built.  From any other it is not, and the
    failure is that of such a number. -/
theorem parse_build_total {text : String} {tree : ParseTree} (h : parse text = .ok tree) :
    ((∃ f, tree.build = .error f) ↔ ∃ t, tree.HasLong t) ∧
      (∀ f, tree.build = .error f →
        ∃ t, tree.HasLong t ∧ f = ⟨"NUMBER", .numeral (.tooLong t.text.length)⟩) ∧
      ((∀ t, ¬ tree.HasLong t) → ∃ classes subroutines declarations body, tree.build =
        .ok (.node .program [.list classes, .node .algorithm [.list subroutines,
          .node .mainAlgorithm [.list declarations, .list body]]])) := by
  obtain ⟨d, hd, hstart, hforest⟩ := exists_derivation_of_parse h
  have hfails : ∀ f, tree.build = .error f →
      ∃ t, tree.HasLong t ∧ f = ⟨"NUMBER", .numeral (.tooLong t.text.length)⟩ := by
    intro f hf
    have hvalues : d.values = .error f := by
      rw [Derivation.values, hforest, ParseTree.buildAll, hf]
    obtain ⟨t, ht, hlong, rfl⟩ := Derivation.values_eq_error d hd hvalues
    exact ⟨t, (ParseTree.hasLong_iff hd hforest t).mpr ⟨ht, hlong⟩, rfl⟩
  have hbuilds : ∀ v, tree.build = .ok v → ∀ t, ¬ tree.HasLong t := by
    intro v hv t hlong
    have hvalues : d.values = .ok [v] := by
      rw [Derivation.values, hforest, ParseTree.buildAll_cons_eq_ok_iff]
      exact ⟨v, [], hv, rfl, rfl⟩
    obtain ⟨ht, hlong⟩ := (ParseTree.hasLong_iff hd hforest t).mp hlong
    have hshort := (Derivation.exists_values_iff hd).mp ⟨_, hvalues⟩ t ht
    rw [hlong] at hshort
    cases hshort
  cases hbuild : tree.build with
  | error f =>
    obtain ⟨t, hlong, hf⟩ := hfails f hbuild
    rw [hbuild] at hfails
    exact ⟨⟨fun _ => ⟨t, hlong⟩, fun _ => ⟨f, rfl⟩⟩, hfails, fun hnone => absurd hlong (hnone t)⟩
  | ok v =>
    have hnone := hbuilds v hbuild
    refine ⟨⟨?_, ?_⟩, ?_, ?_⟩
    · rintro ⟨_, hf⟩
      cases hf
    · rintro ⟨t, hlong⟩
      exact absurd hlong (hnone t)
    · intro _ hf
      cases hf
    · obtain ⟨classes, _, rfl, subroutines, _, rfl, -, declarations, body, rfl, -⟩ :=
        Typing.syntaxTrees_of_build ⟨d, hd, hstart, hforest⟩ hbuild
      exact fun _ => ⟨classes, subroutines, declarations, body, rfl⟩

/-- A subroutine and a main part with short numbers, one of them with a point. -/
theorem parse_build_total_halves :
    ∃ tree, parse "f(n) begin return 0.5 * n end begin x := f(12) end" = .ok tree ∧
      (∀ t, ¬ tree.HasLong t) ∧ ∃ classes subroutines declarations body, tree.build =
        .ok (.node .program [.list classes, .node .algorithm [.list subroutines,
          .node .mainAlgorithm [.list declarations, .list body]]]) := by
  have hshort : (parse "f(n) begin return 0.5 * n end begin x := f(12) end").toOption.any
      (fun tree => tree.tokens.all fun t => t.text.toList.length ≤ 4300) = true := by
    decide +kernel
  obtain ⟨tree, hparse, hshort⟩ := exists_eq_ok_of_any hshort
  have hnone : ∀ t, ¬ tree.HasLong t := by
    rintro t ⟨ht, -, -, hlong⟩
    have hlength := of_decide_eq_true (List.all_eq_true.mp hshort t ht)
    have hcount := t.text.toList.countP_le_length (p := Text.isDecimal)
    omega
  exact ⟨tree, hparse, hnone, (parse_build_total hparse).2.2 hnone⟩

end Ordo
