import Ordo.Proofs.ParsedTrees

namespace Ordo

/-!
# The dimensions of array parameters

An array parameter is a name with pairs of brackets and perhaps the end of a range.  Brackets
leave nothing in the parse tree and neither does an empty pair, while the end of a range leaves
its expression.  The rule for array parameters counts what is left.

* `BracketPair` — a pair of brackets, empty or with a size in it;
* `Derivation.IsArrayOf` — an array parameter as it is written;
* `exists_bracketPairs` — the pairs of brackets in a repetition, and the sizes they leave;
* `dimensions_as_written_iff` — the dimensions of any array parameter in a text, and when they
  are the pairs of brackets.
-/

open Derivation List

/-! ### Pairs of brackets -/

/-- A pair of brackets, perhaps with a size between them. -/
structure BracketPair where
  opening : Token
  size? : Option Derivation
  closing : Token

namespace BracketPair

/-- How a pair of brackets is derived. -/
def group (q : BracketPair) : List Derivation :=
  .leaf q.opening :: (q.size?.toList ++ [.leaf q.closing])

/-- A pair with a size in it. -/
def isFilled (q : BracketPair) : Bool := q.size?.isSome

/-- Square brackets, with nothing but an expression between them. -/
structure IsWritten (q : BracketPair) : Prop where
  opening : q.opening.kind = .lsqb
  closing : q.closing.kind = .rsqb
  size : ∀ e ∈ q.size?, e.symbol = Rule.expression.symbol

end BracketPair

variable {vs : List Value}

/-- What is built from an expression is one. -/
theorem Derivation.exists_expression {e : Derivation} (hsound : e.IsSound)
    (he : e.symbol = Rule.expression.symbol) (h : e.values = .ok vs) :
    ∃ v, vs = [v] ∧ v.isExpression = true := by
  obtain ⟨v, rfl⟩ := eq_singleton_of_values he h
  exact ⟨v, rfl, (Typing.isClosed_syntaxTrees.of_values hsound he h).1⟩

/-- An expression between brackets. -/
theorem Derivation.exists_bracketed {ds : List Derivation}
    (h : ds.map symbol = [.terminal .lsqb, Rule.expression.symbol, .terminal .rsqb])
    (hsound : ∀ e ∈ ds, e.IsSound) (hvalues : valuesAll ds = .ok vs) :
    ∃ left e right v, ds = [leaf left, e, leaf right] ∧ left.kind = .lsqb ∧ right.kind = .rsqb ∧
      e.symbol = Rule.expression.symbol ∧ vs = [v] ∧ v.isExpression = true := by
  obtain ⟨o, ds, rfl, ho, hds⟩ := map_eq_cons_iff.mp h
  obtain ⟨e, ds, rfl, he, hds⟩ := map_eq_cons_iff.mp hds
  obtain ⟨c, rfl, hc⟩ := map_eq_singleton_iff.mp hds
  rw [valuesAll_cons_of_not_isKept ho rfl] at hvalues
  obtain ⟨v₁, v₂, hv₁, hv₂, rfl⟩ := valuesAll_cons_eq_ok_iff.mp hvalues
  rw [valuesAll_cons_of_not_isKept hc rfl] at hv₂
  obtain rfl := valuesAll_nil_eq_ok_iff.mp hv₂
  obtain ⟨v, rfl, hv⟩ := exists_expression (hsound e (by simp)) he hv₁
  obtain ⟨left, rfl, hleft⟩ := exists_eq_leaf ho
  obtain ⟨right, rfl, hright⟩ := exists_eq_leaf hc
  exact ⟨left, e, right, v, rfl, hleft, hright, he, rfl, hv⟩

/-- An occurrence of brackets is a pair of them, and leaves the size in it. -/
theorem exists_bracketPair {g : List Derivation}
    (hsymbols : g.map symbol ∈ Repetition.brackets.phrase.expansions)
    (hsound : ∀ e ∈ g, e.IsSound) (hvalues : valuesAll g = .ok vs) :
    ∃ q : BracketPair, g = q.group ∧ q.IsWritten ∧ (∀ v ∈ vs, v.isExpression = true) ∧
      vs.length = if q.isFilled then 1 else 0 := by
  have hshape : g.map symbol = [.terminal .lsqb, Rule.expression.symbol, .terminal .rsqb]
      ∨ g.map symbol = [.terminal .lsqb, .terminal .rsqb] := by
    simpa [Repetition.phrase, Phrase.inTurn, Phrase.expansions] using hsymbols
  rcases hshape with hshape | hshape
  · obtain ⟨left, e, right, v, rfl, hleft, hright, he, rfl, hv⟩ :=
      exists_bracketed hshape hsound hvalues
    exact ⟨⟨left, some e, right⟩, rfl, ⟨hleft, hright, by simpa using he⟩, by simpa using hv, rfl⟩
  · obtain ⟨o, ds, rfl, ho, hds⟩ := map_eq_cons_iff.mp hshape
    obtain ⟨c, rfl, hc⟩ := map_eq_singleton_iff.mp hds
    rw [valuesAll_cons_of_not_isKept ho rfl,
      valuesAll_cons_of_not_isKept hc rfl] at hvalues
    obtain rfl := valuesAll_nil_eq_ok_iff.mp hvalues
    obtain ⟨left, rfl, hleft⟩ := exists_eq_leaf ho
    obtain ⟨right, rfl, hright⟩ := exists_eq_leaf hc
    exact ⟨⟨left, none, right⟩, rfl, ⟨hleft, hright, by simp⟩, by simp, rfl⟩

/-- **Pairs of brackets leave the sizes that are in them.** -/
theorem exists_bracketPairs {groups : List (List Derivation)}
    (hgroups : ∀ g ∈ groups, g.map symbol ∈ Repetition.brackets.phrase.expansions ∧
      ∀ e ∈ g, e.IsSound) (hvalues : valuesAll groups.flatten = .ok vs) :
    ∃ pairs : List BracketPair, groups = pairs.map BracketPair.group ∧
      (∀ q ∈ pairs, q.IsWritten) ∧ (∀ v ∈ vs, v.isExpression = true) ∧
      vs.length = pairs.countP BracketPair.isFilled := by
  induction groups generalizing vs with
  | nil =>
    obtain rfl := valuesAll_nil_eq_ok_iff.mp hvalues
    exact ⟨[], rfl, by simp, by simp, rfl⟩
  | cons g groups ih =>
    obtain ⟨⟨hsymbols, hsound⟩, hrest⟩ := forall_mem_cons.mp hgroups
    rw [flatten_cons] at hvalues
    obtain ⟨v₁, v₂, hg, htail, rfl⟩ := valuesAll_append_eq_ok_iff.mp hvalues
    obtain ⟨q, rfl, hq, hv₁, hlength⟩ := exists_bracketPair hsymbols hsound hg
    obtain ⟨pairs, rfl, hpairs, hv₂, hlengths⟩ := ih hrest htail
    refine ⟨q :: pairs, rfl, forall_mem_cons.mpr ⟨hq, hpairs⟩,
      forall_mem_append.mpr ⟨hv₁, hv₂⟩, ?_⟩
    rw [length_append, hlength, hlengths, countP_cons, Nat.add_comm]

/-! ### Array parameters -/

/-- The end of a range, as it may stand after the brackets of an array parameter. -/
def rangeEnd : List Symbol :=
  [.terminal .dots, .terminal .lsqb, Rule.expression.symbol, .terminal .rsqb]

/-- An array parameter as it is written: its name, its pairs of brackets and what comes after
    them, which is nothing or the end of a range. -/
structure Derivation.IsArrayOf (c : Derivation) (name : Token) (pairs : List BracketPair)
    (stop : List Derivation) : Prop where
  derivation : ∃ p m, c = .node p (.leaf name :: m :: stop) ∧
    m.groups = pairs.map BracketPair.group
  ne_nil : pairs ≠ []
  written : ∀ q ∈ pairs, q.IsWritten
  stop : stop = [] ∨ stop.map symbol = rangeEnd

/-- An array parameter with its name and the number of its dimensions. -/
def arrayParameter (name : String) (dimensions : Nat) : Value :=
  .node .parameter [.str name, .str "array", .none, .int dimensions]

/-- How many expressions the end of a range leaves. -/
def endsLeft (stop : List Derivation) : Nat := if stop.isEmpty then 0 else 1

/-- The dimensions of an array parameter are the expressions in it. -/
theorem ofRule_arrayParameter (name : String) {sizes : List Value}
    (h : ∀ v ∈ sizes, v.isExpression = true) :
    Build.ofRule .arrayParameter (.token "CNAME" name :: sizes)
      = .ok (arrayParameter name sizes.length) := by
  show Except.ok (Value.node .parameter [.str name, .str "array", .none,
    .int (List.length (filter _ sizes))]) = _
  rw [filter_eq_self.mpr fun v hv => by rw [h v hv, Bool.true_or]]
  rfl

/-- The end of a range leaves its expression. -/
theorem length_of_valuesAll_stop {stop : List Derivation}
    (hstop : stop = [] ∨ stop.map symbol = rangeEnd) (hsound : ∀ e ∈ stop, e.IsSound)
    (hvalues : valuesAll stop = .ok vs) :
    (∀ v ∈ vs, v.isExpression = true) ∧ vs.length = endsLeft stop := by
  rcases hstop with rfl | hstop
  · obtain rfl := valuesAll_nil_eq_ok_iff.mp hvalues
    exact ⟨by simp, rfl⟩
  · obtain ⟨p, ds, rfl, hp, hds⟩ := map_eq_cons_iff.mp hstop
    rw [valuesAll_cons_of_not_isKept hp rfl] at hvalues
    obtain ⟨-, -, -, v, rfl, -, -, -, rfl, hv⟩ := exists_bracketed hds
      (fun e he => hsound e (by simp [he])) hvalues
    exact ⟨by simpa using hv, rfl⟩

/-- The name, the brackets and the dimensions of an array parameter. -/
theorem exists_isArrayOf {c : Derivation} {ws : List Value} (hsound : c.IsSound)
    (hc : c.symbol = Rule.arrayParameter.symbol) (hvalues : c.values = .ok ws) :
    ∃ name pairs stop, c.IsArrayOf name pairs stop ∧
      ws = [arrayParameter name.text (pairs.countP BracketPair.isFilled + endsLeft stop)] := by
  obtain ⟨p, ds, rfl, hlhs, hlegal⟩ := hsound.exists_children hc
  obtain ⟨parts, v, hparts, hv, rfl⟩ := (values_rule_eq_ok_iff hlhs).mp hvalues
  obtain ⟨ys, hys, hshape⟩ : ∃ ys, (ys = [] ∨ ys = rangeEnd) ∧
      ds.map symbol = .terminal .cname :: Repetition.brackets.symbol :: ys := by
    rcases mem_pair.mp (show ds.map symbol ∈
      [.terminal .cname :: Repetition.brackets.symbol :: rangeEnd,
        [.terminal .cname, Repetition.brackets.symbol]] from hlegal) with hshape | hshape
    · exact ⟨rangeEnd, .inr rfl, hshape⟩
    · exact ⟨[], .inl rfl, hshape⟩
  obtain ⟨n, ds, rfl, hn, hds⟩ := map_eq_cons_iff.mp hshape
  obtain ⟨m, stop, rfl, hm, rfl⟩ := map_eq_cons_iff.mp hds
  rw [map_eq_nil_iff] at hys
  obtain ⟨name, rfl, hname⟩ := exists_eq_leaf hn
  obtain ⟨v₁, v₂, hv₁, hv₂, rfl⟩ := valuesAll_cons_eq_ok_iff.mp hparts
  obtain ⟨sizes, ends, hsizes, hends, rfl⟩ := valuesAll_cons_eq_ok_iff.mp hv₂
  obtain rfl : [.token "CNAME" name.text] = v₁ := by
    simpa [values, forest, hname, Terminal.isKept, ParseTree.buildAll,
      ParseTree.build, ParseTree.attempt, Terminal.value, Terminal.name] using hv₁
  rw [values_eq_valuesAll_groups hm] at hsizes
  have hmsound : m.IsSound := hsound.of_mem_children m (by simp)
  obtain ⟨pairs, hpairs, hwritten, hsizes, hlength⟩ :=
    exists_bracketPairs (hmsound.groups hm) hsizes
  obtain ⟨hends, hlength'⟩ := length_of_valuesAll_stop hys
    (fun e he => hsound.of_mem_children e (by simp [he])) hends
  have hne : pairs ≠ [] := by
    rintro rfl
    exact hmsound.groups_ne_nil hm hpairs
  have hmade := ofRule_arrayParameter name.text (forall_mem_append.mpr ⟨hsizes, hends⟩)
  obtain rfl := Except.ok.inj (hmade.symm.trans hv)
  refine ⟨name, pairs, stop, ⟨⟨p, m, rfl, hpairs⟩, hne, hwritten, hys⟩, ?_⟩
  rw [length_append, hlength, hlength']

/-- **Array parameters count what is written in their brackets.**  In the syntax tree of a text,
    the dimensions of an array parameter are its pairs of brackets that are not empty, and one
    more if the end of a range follows them.  So they are its pairs of brackets if and only if
    there are as many empty pairs as ends of a range: none, or one. -/
theorem dimensions_as_written_iff {text : String} {v : Value} (h : programOfText text = .ok v) :
    ∃ d, derive text.toList = .ok d ∧ d.values = .ok [v] ∧
      ∀ c ∈ d.parts, c.symbol = Rule.arrayParameter.symbol →
        ∃ name pairs stop, c.IsArrayOf name pairs stop ∧
          c.values = .ok
            [arrayParameter name.text (pairs.countP BracketPair.isFilled + endsLeft stop)] ∧
          (c.values = .ok [arrayParameter name.text pairs.length] ↔
            pairs.countP (fun q => !q.isFilled) = endsLeft stop) := by
  refine forall_parts_of_programOfText h fun c ws hsound hws hc => ?_
  obtain ⟨name, pairs, stop, harray, rfl⟩ := exists_isArrayOf hsound hc hws
  refine ⟨name, pairs, stop, harray, hws, ?_⟩
  -- a pair of brackets is empty or not
  have hlength : pairs.length = pairs.countP BracketPair.isFilled
      + pairs.countP (fun q => !q.isFilled) := by
    simpa using List.length_eq_countP_add_countP BracketPair.isFilled (l := pairs)
  simp only [hws, arrayParameter, Except.ok.injEq, List.cons.injEq, Value.node.injEq,
    Value.int.injEq, and_true, true_and]
  omega

/-- A matrix whose first size is left open, and an array with the end of a range. -/
theorem dimensions_as_written_iff_matrix :
    ∃ v, programOfText "f(A[][n], B[1]..[n]) begin end begin end" = .ok v ∧
      ∃ d, derive "f(A[][n], B[1]..[n]) begin end begin end".toList = .ok d ∧
        d.values = .ok [v] ∧
        ∀ c ∈ d.parts, c.symbol = Rule.arrayParameter.symbol →
          ∃ name pairs stop, c.IsArrayOf name pairs stop ∧
            c.values = .ok
              [arrayParameter name.text (pairs.countP BracketPair.isFilled + endsLeft stop)] ∧
            (c.values = .ok [arrayParameter name.text pairs.length] ↔
              pairs.countP (fun q => !q.isFilled) = endsLeft stop) := by
  obtain ⟨v, hv⟩ := exists_eq_ok_of_isOk (x := programOfText "f(A[][n], B[1]..[n]) begin end begin end")
    (by decide +kernel)
  exact ⟨v, hv, dimensions_as_written_iff hv⟩

/-- An array of one dimension without a size is read as one of no dimension, and with the end of
    a range as one of two. -/
theorem open_array_of_no_dimension :
    ((programOfText "f(A[], B[1]..[n]) begin end begin end").toOption.any fun v =>
      v.nodes.any (fun n => (Value.node n.1 n.2).same (arrayParameter "A" 0)) &&
        v.nodes.any fun n => (Value.node n.1 n.2).same (arrayParameter "B" 2)) = true := by
  decide +kernel

end Ordo
