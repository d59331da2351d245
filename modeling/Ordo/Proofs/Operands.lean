import Ordo.Proofs.Chains
import Ordo.Proofs.Lexing
import Ordo.Proofs.Names
import Ordo.Proofs.Numerals

namespace Ordo

/-!
# Operands and the signs between them

Products and powers are chains of operands with a sign before each operand but the first.  The
signs `*`, `/` and `^` are kept in the parse tree and the words `mod` and `div` are not, while the
rules for both chains count on one part for each sign in one case and on none in the other.

* `Operand` — a sign with the operand after it, and the parts that a parse keeps of them;
* `IsChain`, `exists_operands` — the rules that are such chains, and the signs, operands and value
  of any chain in a text;
* `multiplied`, `product_as_written_iff` — products, which are as written if there is no `mod` or
  `div` among their signs;
* `raised`, `power_as_written_iff` — powers, which are as written only if there is no sign at all.
-/

open Build (operatorChain signText)

open Derivation List

/-! ### Signs -/

variable {t : Token} {s : String}

/-- A token of a kind that is always written the same way has that text. -/
theorem Token.IsLexed.spelling?_eq (h : t.IsLexed)
    (hs : t.kind.spelling? = some s) : t.text = s := by
  obtain ⟨context, k, cs, rest, hlexeme, hk⟩ := h.exists_lexeme
  apply String.toList_injective
  by_cases hword : k = .cname
  · -- a word that was cut off as a name is told by the list of reserved words
    rw [wordKind, if_pos hword] at hk
    split at hk
    · rename_i word hlookup
      split at hk
      · have hmem := Automaton.mem_of_lookup hlookup
        have hspelled : Terminal.reserved.all
            (fun p => p.2.spelling?.map String.toList = some p.1) = true := by decide
        simpa [← hk, hs, eq_comm] using all_eq_true.mp hspelled _ hmem
      · simp [hk, hword, Terminal.spelling?] at hs
    · simp [hk, hword, Terminal.spelling?] at hs
  · rw [wordKind, if_neg hword] at hk
    rw [hk] at hs
    rw [Terminal.lexeme?_of_spelling hs] at hlexeme
    obtain ⟨rest', -, hpair⟩ := Option.map_eq_some_iff.mp hlexeme
    exact (Prod.mk.inj hpair).1.symm

/-- What is built from a token that is always written the same way: nothing, or the token. -/
theorem Derivation.values_of_spelling (h : t.kind.spelling? = some s) : (leaf t).values
      = .ok (if t.kind.isKept then [.token t.kind.name t.text] else []) := by
  obtain ⟨kind, text, place⟩ := t
  cases kind <;> first | rfl | cases h

/-- A sign, the operand after it and the value of that operand. -/
structure Operand where
  sign : Token
  operand : Derivation
  value : Value

namespace Operand

/-- How a sign and an operand are derived. -/
def group (q : Operand) : List Derivation := [.leaf q.sign, q.operand]

/-- What is built from a sign and an operand. -/
def parts (q : Operand) : List Value :=
  if q.sign.kind.isKept then [.token q.sign.kind.name q.sign.text, q.value] else [q.value]

/-- One of the given signs, with an operand that has its value. -/
structure IsRead (signs : List Terminal) (q : Operand) : Prop where
  sign : q.sign.kind ∈ signs
  text : q.sign.kind.spelling? = some q.sign.text
  value : q.operand.values = .ok [q.value]

end Operand

/-- A chain of a first operand with the given value and further operands with signs. -/
def Derivation.IsChainOf (signs : List Terminal) (c : Derivation) (first : Value)
    (rest : List Operand) : Prop :=
  ∃ l, c.chain? = some (l, rest.map Operand.group) ∧ l.values = .ok [first] ∧
    ∀ q ∈ rest, q.IsRead signs

/-! ### Chains -/

/-- A rule that is an operand, or an operand and a repetition of signs with operands. -/
structure IsChain (r operand : Rule) (m : Repetition) (signs : List Terminal) : Prop where
  expansions : r.phrase.expansions = [[operand.symbol, m.symbol], [operand.symbol]]
  repeated : m.phrase.expansions = signs.map fun k => [.terminal k, operand.symbol]
  spelled : ∀ k ∈ signs, k.spelling?.isSome = true

section Chain

variable {r operand : Rule} {m : Repetition} {signs : List Terminal}

variable {vs : List Value}

/-- A sign and an operand in a repetition. -/
theorem exists_operand (hchain : IsChain r operand m signs) {g : List Derivation}
    (hsymbols : g.map symbol ∈ m.phrase.expansions)
    (hsound : ∀ e ∈ g, e.IsSound) (hvalues : valuesAll g = .ok vs) :
    ∃ q : Operand, g = q.group ∧ q.IsRead signs ∧ vs = q.parts := by
  rw [hchain.repeated] at hsymbols
  obtain ⟨k, hk, hpair⟩ := mem_map.mp hsymbols
  obtain ⟨s, ds, rfl, hs, hds⟩ := map_eq_cons_iff.mp hpair.symm
  obtain ⟨o, rfl, ho⟩ := map_eq_singleton_iff.mp hds
  cases s with
  | node p ds => simp [symbol] at hs
  | leaf t =>
    obtain rfl : t.kind = k := by simpa [symbol] using hs
    have hlexed : t.IsLexed := (hsound (.leaf t) (by simp)).lexed t (by simp [tokens])
    obtain ⟨s, hspelled⟩ := Option.isSome_iff_exists.mp (hchain.spelled t.kind hk)
    obtain rfl := hlexed.spelling?_eq hspelled
    obtain ⟨v₁, v₂, hv₁, hv₂, rfl⟩ := valuesAll_cons_eq_ok_iff.mp hvalues
    rw [valuesAll_singleton] at hv₂
    obtain ⟨w, rfl⟩ := eq_singleton_of_values ho hv₂
    rw [values_of_spelling hspelled] at hv₁
    obtain rfl := Except.ok.inj hv₁
    refine ⟨⟨t, o, w⟩, rfl, ⟨hk, hspelled, hv₂⟩, ?_⟩
    rw [Operand.parts]
    split <;> rfl

/-- **The chains in a text**: each has a first operand, signs with further operands, and the value
    that its rule makes from what is kept of them. -/
theorem exists_operands (hchain : IsChain r operand m signs) {text : String} {v : Value}
    (h : programOfText text = .ok v) : ∃ d, derive text.toList = .ok d ∧ d.values = .ok [v] ∧
      ∀ c ∈ d.parts, c.symbol = r.symbol →
        ∃ first rest w, c.IsChainOf signs first rest ∧ c.values = .ok [w] ∧
          Build.ofRule r (first :: rest.flatMap Operand.parts) = .ok w := by
  refine forall_parts_of_programOfText h fun c ws hsound hws hc => ?_
  obtain ⟨l, first, w, rest, hl, hfirst, hread, hw, rfl⟩ :=
    exists_items_of_values hchain.expansions (exists_operand hchain) hsound hc hws
  exact ⟨first, rest, w, ⟨l, hl, hfirst, hread⟩, hws, hw⟩

end Chain

/-! ### Products -/

/-- The signs of a product. -/
def productSigns : List Terminal := [.star, .slash, .kwMod, .kwDiv]

theorem isChain_term : IsChain .term .factor .multiplicands productSigns where
  expansions := rfl
  repeated := rfl
  spelled := by decide

/-- Products from left to right, with the signs as they are written. -/
def multiplied (first : Value) (rest : List Operand) : Value :=
  rest.foldl (fun left q => .node .binaryOp [.str q.sign.text, left, q.value]) first

/-- How many operations are nested in one another's left operands. -/
def Value.leftDepth : Value → Nat
  | .node .binaryOp [_, left, _] => left.leftDepth + 1
  | _ => 0

variable (first : Value) (rest : List Operand)

theorem leftDepth_multiplied :
    (multiplied first rest).leftDepth = first.leftDepth + rest.length := by
  induction rest generalizing first with
  | nil => rfl
  | cons q rest ih =>
    refine (ih (.node .binaryOp [.str q.sign.text, first, q.value])).trans ?_
    rw [Value.leftDepth, length_cons]
    omega

/-- Two parts make one operation. -/
theorem leftDepth_operatorChain (operator : Value → Value) : ∀ (first : Value) (vs : List Value),
    (operatorChain operator first vs).leftDepth = first.leftDepth + vs.length / 2
  | first, [] => rfl
  | first, [_] => by simp [operatorChain]
  | first, op :: right :: vs => by
    rw [operatorChain, leftDepth_operatorChain operator _ vs, Value.leftDepth,
      length_cons, length_cons]
    omega

namespace Operand

variable (first : Value) (rest : List Operand)

theorem length_parts : (rest.flatMap parts).length
    = rest.length + rest.countP fun q => q.sign.kind.isKept := by
  induction rest with
  | nil => rfl
  | cons q rest ih =>
    rw [flatMap_cons, length_append, ih, countP_cons, length_cons, parts]
    split <;> simp <;> omega

/-- A product whose signs are all kept is as written up to where it goes on. -/
theorem operatorChain_parts {kept : List Operand} (vs : List Value)
    (h : ∀ q ∈ kept, q.sign.kind.isKept = true) :
    operatorChain signText first (kept.flatMap parts ++ vs)
      = operatorChain signText (multiplied first kept) vs := by
  induction kept generalizing first with
  | nil => rfl
  | cons q kept ih =>
    obtain ⟨hq, hkept⟩ := forall_mem_cons.mp h
    rw [flatMap_cons, parts, if_pos hq]
    exact ih _ hkept

/-- **A product is as written** if all of its signs are kept.  A sign that is not kept makes fewer
    parts, so there are fewer operations than signs. -/
theorem operatorChain_parts_eq_iff :
    operatorChain signText first (rest.flatMap parts) = multiplied first rest
      ↔ ∀ q ∈ rest, q.sign.kind.isKept = true := by
  constructor
  · intro h
    have hdepth := congrArg Value.leftDepth h
    rw [leftDepth_operatorChain, leftDepth_multiplied, length_parts] at hdepth
    have hle := @List.countP_le_length _ (fun q : Operand => q.sign.kind.isKept) rest
    exact countP_eq_length.mp (by omega)
  · intro h
    have hchain := operatorChain_parts first [] h
    rwa [append_nil] at hchain

/-- The signs of products that are kept. -/
theorem IsRead.isKept_iff {q : Operand} (h : q.IsRead productSigns) :
    q.sign.kind.isKept = true ↔ q.sign.text = "*" ∨ q.sign.text = "/" := by
  have htext := h.text
  have hsign := h.sign
  simp only [productSigns, mem_cons, not_mem_nil, or_false] at hsign
  rcases hsign with hsign | hsign | hsign | hsign <;> rw [hsign] at htext ⊢ <;>
    obtain htext := Option.some.inj htext <;> rw [← htext] <;> decide

end Operand

/-- **Products lose `mod` and `div`.**  In the syntax tree of a text, a product is made from its
    operands and those of its signs that are `*` or `/`, two parts at a time.  It is the chain of
    its operands from left to right with the operators as they are written if and only if it has no
    other signs, and a `mod` or `div` at its end is lost together with the operand after it. -/
theorem product_as_written_iff {text : String} {v : Value} (h : programOfText text = .ok v) :
    ∃ d, derive text.toList = .ok d ∧ d.values = .ok [v] ∧
      ∀ c ∈ d.parts, c.symbol = Rule.term.symbol →
        ∃ first rest, c.IsChainOf productSigns first rest ∧
          c.values = .ok [operatorChain signText first (rest.flatMap Operand.parts)] ∧
          (c.values = .ok [multiplied first rest] ↔
            ∀ q ∈ rest, q.sign.text = "*" ∨ q.sign.text = "/") ∧
          ∀ kept q, rest = kept ++ [q] → (∀ p ∈ kept, p.sign.text = "*" ∨ p.sign.text = "/") →
            q.sign.text = "mod" ∨ q.sign.text = "div" → c.values = .ok [multiplied first kept] := by
  obtain ⟨d, hderive, hvalues, hchains⟩ := exists_operands isChain_term h
  refine ⟨d, hderive, hvalues, fun c hmem hc => ?_⟩
  obtain ⟨first, rest, w, hchain, hcvalues, hw⟩ := hchains c hmem hc
  have hread : ∀ q ∈ rest, q.IsRead productSigns := by
    obtain ⟨-, -, -, hread⟩ := hchain
    exact hread
  have hproduct : w = operatorChain signText first (rest.flatMap Operand.parts) := by
    have hmade := Build.unlessSingle_operatorChain signText first
      (rest.flatMap Operand.parts)
    exact Except.ok.inj (hw.symm.trans hmade)
  subst hproduct
  refine ⟨first, rest, hchain, hcvalues, ?_, ?_⟩
  · simp only [hcvalues, Except.ok.injEq, List.cons.injEq, and_true,
      Operand.operatorChain_parts_eq_iff]
    exact forall₂_congr fun q hq => (hread q hq).isKept_iff
  · rintro kept q rfl hkept hq
    have hlast : q.sign.kind.isKept = false := by
      rw [Bool.eq_false_iff, Ne, (hread q (by simp)).isKept_iff]
      rcases hq with hq | hq <;> rw [hq] <;> decide
    have hsigns : ∀ p ∈ kept, p.sign.kind.isKept = true := fun p hp =>
      (hread p (List.mem_append_left _ hp)).isKept_iff.mpr (hkept p hp)
    rw [hcvalues, List.flatMap_append, Operand.operatorChain_parts first _ hsigns]
    simp [Operand.parts, hlast, operatorChain]

/-- The middle of a range, as it is computed in a binary search. -/
theorem product_as_written_iff_middle :
    ∃ v, programOfText "begin m := (a + b) div 2 end" = .ok v ∧
      ∃ d, derive "begin m := (a + b) div 2 end".toList = .ok d ∧ d.values = .ok [v] ∧
        ∀ c ∈ d.parts, c.symbol = Rule.term.symbol →
          ∃ first rest, c.IsChainOf productSigns first rest ∧
            c.values
              = .ok [operatorChain signText first (rest.flatMap Operand.parts)] ∧
            (c.values = .ok [multiplied first rest] ↔
              ∀ q ∈ rest, q.sign.text = "*" ∨ q.sign.text = "/") ∧
            ∀ kept q, rest = kept ++ [q] → (∀ p ∈ kept, p.sign.text = "*" ∨ p.sign.text = "/") →
              q.sign.text = "mod" ∨ q.sign.text = "div" →
              c.values = .ok [multiplied first kept] := by
  obtain ⟨v, hv⟩ := exists_eq_ok_of_isOk (x := programOfText "begin m := (a + b) div 2 end")
    (by decide +kernel)
  exact ⟨v, hv, product_as_written_iff hv⟩

/-- The division is lost, and the middle is the sum of both ends. -/
theorem middle_read_as_sum :
    ((programOfText "begin m := (a + b) div 2 end").toOption.any fun v =>
      (programOfText "begin m := a + b end").toOption.any v.same) = true := by
  decide +kernel

/-! ### Powers -/

theorem isChain_power : IsChain .power .atom .exponents [.circumflex] where
  expansions := rfl
  repeated := rfl
  spelled := by decide

/-- One value to the power of another. -/
def toPower (base exponent : Value) : Value := .node .binaryOp [.str "^", base, exponent]

/-- Powers from right to left. -/
def raised (first : Value) : List Operand → Value
  | [] => first
  | q :: rest => toPower first (raised q.value rest)

/-- Powers from right to left, of the operands and of the signs between them. -/
def raisedWithSigns (first : Value) : List Operand → Value
  | [] => first
  | q :: rest =>
      toPower first (toPower (.token "CIRCUMFLEX" "^") (raisedWithSigns q.value rest))

/-- How many operations there are in a value. -/
def Value.operations (v : Value) : Nat := v.nodes.countP fun n => n.1 = .binaryOp

theorem operations_toPower (base exponent : Value) :
    (toPower base exponent).operations = base.operations + exponent.operations + 1 := by
  simp [toPower, Value.operations, Value.nodes, Value.nodesAll]

theorem operations_raisedWithSigns :
    (raisedWithSigns first rest).operations = (raised first rest).operations + rest.length := by
  induction rest generalizing first with
  | nil => rfl
  | cons q rest ih =>
    have hsign : (Value.token "CIRCUMFLEX" "^").operations = 0 := rfl
    simp only [raisedWithSigns, raised, operations_toPower, ih, hsign, length_cons]
    omega

/-- Signs are operands like any other to the rule for powers. -/
theorem rightChain_parts {rest : List Operand} (h : ∀ q ∈ rest, q.IsRead [.circumflex]) :
    Build.rightChain (first :: rest.flatMap Operand.parts) = .ok (raisedWithSigns first rest) := by
  induction rest generalizing first with
  | nil => rfl
  | cons q rest ih =>
    obtain ⟨hq, hrest⟩ := forall_mem_cons.mp h
    have hkind : q.sign.kind = .circumflex := mem_singleton.mp hq.sign
    have htext : q.sign.text = "^" := by
      have hspelled := hq.text
      rw [hkind] at hspelled
      exact (Option.some.inj hspelled).symm
    have hparts : q.parts = [.token "CIRCUMFLEX" "^", q.value] := by
      rw [Operand.parts, hkind, htext]
      rfl
    have hvalue := ih q.value hrest
    rw [flatMap_cons, hparts]
    show ((Build.rightChain (q.value :: rest.flatMap Operand.parts)).map _).map _ = _
    rw [hvalue]
    rfl

/-- **The signs of a power become operands.**  In the syntax tree of a text, a power is the chain
    from right to left of its operands and of the signs between them, so it has an operation more
    for each sign and is the chain of its operands only if it has no sign at all. -/
theorem power_as_written_iff {text : String} {v : Value} (h : programOfText text = .ok v) :
    ∃ d, derive text.toList = .ok d ∧ d.values = .ok [v] ∧
      ∀ c ∈ d.parts, c.symbol = Rule.power.symbol →
        ∃ first rest, c.IsChainOf [.circumflex] first rest ∧
          c.values = .ok [raisedWithSigns first rest] ∧
          (raisedWithSigns first rest).operations
            = (raised first rest).operations + rest.length ∧
          (c.values = .ok [raised first rest] ↔ rest = []) := by
  obtain ⟨d, hderive, hvalues, hchains⟩ := exists_operands isChain_power h
  refine ⟨d, hderive, hvalues, fun c hmem hc => ?_⟩
  obtain ⟨first, rest, w, hchain, hcvalues, hw⟩ := hchains c hmem hc
  obtain rfl : raisedWithSigns first rest = w := by
    obtain ⟨-, -, -, hread⟩ := hchain
    exact Except.ok.inj ((rightChain_parts first hread).symm.trans hw)
  have hcount := operations_raisedWithSigns first rest
  refine ⟨first, rest, hchain, hcvalues, hcount, ?_⟩
  rw [hcvalues]
  constructor
  · intro hsame
    have hsame := congrArg Value.operations (List.cons.inj (Except.ok.inj hsame)).1
    exact List.length_eq_zero_iff.mp (by omega)
  · rintro rfl
    rfl

/-- A power of a power. -/
theorem power_as_written_iff_tower :
    ∃ v, programOfText "begin x := a ^ b ^ c end" = .ok v ∧
      ∃ d, derive "begin x := a ^ b ^ c end".toList = .ok d ∧ d.values = .ok [v] ∧
        ∀ c ∈ d.parts, c.symbol = Rule.power.symbol →
          ∃ first rest, c.IsChainOf [.circumflex] first rest ∧
            c.values = .ok [raisedWithSigns first rest] ∧
            (raisedWithSigns first rest).operations
              = (raised first rest).operations + rest.length ∧
            (c.values = .ok [raised first rest] ↔ rest = []) := by
  obtain ⟨v, hv⟩ := exists_eq_ok_of_isOk (x := programOfText "begin x := a ^ b ^ c end")
    (by decide +kernel)
  exact ⟨v, hv, power_as_written_iff hv⟩

/-- Two signs make four operations. -/
theorem tower_of_four_operations :
    ((programOfText "begin x := a ^ b ^ c end").toOption.any fun v => v.operations = 4)
      = true := by
  decide +kernel

end Ordo
