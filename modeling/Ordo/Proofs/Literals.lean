import Ordo.Proofs.Chains
import Ordo.Proofs.Numerals
import Ordo.Proofs.ReservedNames
import Ordo.Proofs.Scanning

namespace Ordo

open Automaton

/-!
# Literals that are read as names

`true`, `NULL` and the like are tokens of their own by the grammar.  But wherever one of them can
stand, so can a name, and a name is what the lexer looks for first.  So no text has such a token,
and each of these words is a variable.

* `Terminal.literals`, `literalWords` — the kinds of literal, and how they are written;
* `ne_literal_of_lexIn` — in no state of the parser is a literal cut off;
* `Derivation.values_of_literalWord` — what is built from a literal;
* `literals_read_as_names` — every literal of a text is a variable.
-/

open List Option

/-- The tokens for truth values and for nothing. -/
def Terminal.literals : List Terminal := [.boolean, .null]

/-- How truth values and nothing are written. -/
def literalWords : List String := ["T", "F", "true", "false", "NULL", "null"]

/-! ### Cutting off a literal -/

/-- Where a literal can stand, so can a name. -/
theorem Automaton.takes_cname_states : (states.all fun st => Terminal.literals.all fun k =>
    (st.action? (some k)).isNone || (st.action? (some .cname)).isSome) = true := by
  decide +kernel

variable {k : Terminal}

theorem Automaton.takes_cname_of_literal {q : Nat} (hk : k ∈ Terminal.literals)
    (h : takes q k = true) : takes q .cname = true := by
  obtain ⟨act, hact⟩ := isSome_iff_exists.mp h
  obtain ⟨st, hst, hact⟩ := bind_eq_some_iff.mp hact
  have htable := all_eq_true.mp takes_cname_states st (mem_of_getElem? hst)
  have hname := all_eq_true.mp htable k hk
  rw [hact] at hname
  rw [takes, action?, hst]
  simpa using hname

/-- What is written like a literal is written like a name. -/
theorem Terminal.isSome_cname_lexeme? (hk : k ∈ Terminal.literals)
    {cs : List Char} (h : (k.lexeme? cs).isSome = true) :
    (Terminal.cname.lexeme? cs).isSome = true := by
  have hstart : ∃ choices : List (List Char), k.lexeme? cs = firstPrefix? choices cs ∧
      (choices.all fun w => w.head?.any isNameStart) = true := by
    simp only [Terminal.literals, mem_cons, not_mem_nil, or_false] at hk
    rcases hk with rfl | rfl
    · exact ⟨_, rfl, by decide⟩
    · exact ⟨_, rfl, by decide⟩
  obtain ⟨choices, hchoices, hnames⟩ := hstart
  rw [hchoices] at h
  obtain ⟨q, hq⟩ := isSome_iff_exists.mp h
  obtain ⟨w, hw, hrest⟩ := exists_of_findSome?_eq_some hq
  obtain ⟨rest, hafter, -⟩ := map_eq_some_iff.mp hrest
  have hname := all_eq_true.mp hnames w hw
  rw [eq_append_of_afterPrefix? hafter]
  cases w with
  | nil => simp at hname
  | cons c w =>
    have hc : isNameStart c = true := by simpa using hname
    simp [Terminal.lexeme?, hc]

/-- A name or a reserved word is no literal. -/
theorem wordKind_cname_not_mem_literals (context : Terminal → Bool) (l : List Char) :
    wordKind context .cname l ∉ Terminal.literals := by
  have hreserved : (Terminal.reserved.all fun w => !Terminal.literals.contains w.2) = true := by
    decide
  rw [wordKind, if_pos rfl]
  split
  · rename_i word hword
    split
    · simpa using all_eq_true.mp hreserved _ (mem_of_lookup hword)
    · decide
  · decide

/-- **In no state of the parser is a literal cut off.** -/
theorem ne_literal_of_lexIn {q : Nat} {place : Place} {cs rest : List Char} {t : Token}
    (h : lexIn (takes q) place cs = some (t, rest)) : t.kind ∉ Terminal.literals := by
  intro hliteral
  obtain ⟨k, -, hk⟩ := exists_of_findSome?_eq_some h
  split at hk
  · rename_i htakes
    obtain ⟨⟨l, r⟩, hlexeme, hpair⟩ := map_eq_some_iff.mp hk
    obtain ⟨rfl, rfl⟩ := Prod.mk.inj hpair
    by_cases hname : k = .cname
    · subst hname
      exact wordKind_cname_not_mem_literals _ _ hliteral
    · -- the lexer tries names first, and would have found one
      rw [wordKind, if_neg hname] at hliteral
      have hcname := takes_cname_of_literal hliteral htakes
      have hsome : (k.lexeme? cs).isSome = true := by rw [hlexeme]; rfl
      obtain ⟨⟨l', r'⟩, hfirst⟩ :=
        isSome_iff_exists.mp (Terminal.isSome_cname_lexeme? hliteral hsome)
      rw [lexIn, Terminal.all, findSome?_cons, hfirst] at h
      simp only [hcname, if_true, map_some, Option.some.injEq, Prod.mk.injEq,
        Token.mk.injEq] at h
      refine wordKind_cname_not_mem_literals (takes q) l' ?_
      rw [h.1.1, wordKind, if_neg hname]
      exact hliteral
  · simp at hk

/-! ### What is built from a literal -/

namespace Derivation

variable {t : Token} {c : Derivation}

attribute [local simp] Phrase.expansions Phrase.inTurn Rule.phrase Phrase.oneOf

/-- The tokens of a part are tokens of the whole. -/
theorem mem_tokens_of_mem_parts (ht : t ∈ c.tokens) (d : Derivation) (h : c ∈ d.parts) :
    t ∈ d.tokens := by
  induction d with
  | leaf u =>
    obtain rfl := mem_singleton.mp h
    exact ht
  | node p ds ih =>
    rcases mem_parts_node.mp h with rfl | ⟨d, hd, h⟩
    · exact ht
    · exact mem_tokensAll.mpr ⟨d, hd, ih d hd h⟩

/-- A phrase of a single token has a single part. -/
theorem IsSound.exists_child_of_tokens {p : Production} {ds : List Derivation}
    (h : (node p ds).IsSound) (ht : (node p ds).tokens = [t]) : ∃ d, ds = [d] ∧ d.tokens = [t] := by
  obtain ⟨hlegal, hrhs⟩ := h.isLegal
  have hne (d : Derivation) (hd : d ∈ ds) : d.tokens ≠ [] :=
    tokens_ne_nil (h.of_mem_children d hd).obeys
  rw [tokens] at ht
  cases ds with
  | nil => simp [tokensAll] at ht
  | cons d ds =>
    cases ds with
    | nil => exact ⟨d, rfl, by simpa [tokensAll] using ht⟩
    | cons e ds =>
      have hlength := congrArg List.length ht
      have hd := length_pos_iff.mpr (hne d (by simp))
      have he := length_pos_iff.mpr (hne e (by simp))
      simp only [tokensAll, length_append, length_singleton] at hlength
      omega

/-- A single token as an operand is a number, a literal or a name. -/
theorem IsSound.cases_of_atom (hsound : c.IsSound)
    (hc : c.symbol = Rule.atom.symbol) (ht : c.tokens = [t]) :
    t.kind ∈ Terminal.number :: Terminal.literals ∨
      ∃ p q, p.lhs = .rule .atom ∧ q.lhs = .rule .designator ∧ t.kind = .cname ∧
        c = node p [node q [leaf t]] := by
  obtain ⟨p, ds, rfl, hp, hds⟩ := hsound.exists_children hc
  obtain ⟨d, rfl, hd⟩ := hsound.exists_child_of_tokens ht
  have hsound' := hsound.of_mem_children d (by simp)
  cases d with
  | leaf u =>
    obtain rfl : u = t := by simpa [tokens] using hd
    left
    simpa [symbol, Terminal.literals]
      using hds
  | node q es =>
    right
    obtain ⟨e, rfl, he⟩ := hsound'.exists_child_of_tokens hd
    obtain ⟨hlegal, hrhs⟩ := hsound'.isLegal
    rw [← hrhs] at hlegal
    -- of the phrases that an operand can be, only a designator can have a single part
    have hq : q.lhs = .rule .designator := by
      have hcases : q.lhs = .rule .designator ∨ q.lhs = .rule .functionCall ∨
          q.lhs = .rule .ceiling ∨ q.lhs = .rule .floor ∨ q.lhs = .rule .length := by
        simpa [symbol] using hds
      rcases hcases with hq | hq | hq | hq | hq
      · exact hq
      all_goals
        rw [hq] at hlegal
        simp [Nonterminal.expansions] at hlegal
    rw [hq] at hlegal
    have hname : e.symbol = .terminal .cname := by
      simpa [Nonterminal.expansions]
        using hlegal
    obtain ⟨u, rfl, hu⟩ := exists_eq_leaf hname
    obtain rfl : u = t := by simpa [tokens] using he
    exact ⟨p, q, hp, hq, hu, rfl⟩

/-- A word that is written like a literal is no numeral. -/
theorem not_isNumeral_of_mem_literalWords {w : String} (h : w ∈ literalWords) :
    ¬IsNumeral w.toList := by
  have hstart : (literalWords.all fun w => w.toList.head?.any (!Text.isDecimal ·)) = true := by
    decide
  rintro ⟨whole, hne, hdigits, hw⟩
  obtain ⟨c, whole, rfl⟩ := exists_cons_of_ne_nil hne
  have hc := hdigits c mem_cons_self
  have hhead : w.toList.head? = some c := by
    rcases hw with hw | ⟨fraction, -, -, hw⟩ <;> rw [hw] <;> rfl
  have hword := all_eq_true.mp hstart w h
  simp [hhead, hc] at hword

/-- What is built from a word that is written like a literal, but is none. -/
theorem values_of_literalWord (hsound : c.IsSound)
    (hc : c.symbol = Rule.atom.symbol) (ht : c.tokens = [t]) (hword : t.text ∈ literalWords)
    (hkind : t.kind ∉ Terminal.literals) : c.values = .ok [Build.plainVar (.str t.text)] := by
  rcases hsound.cases_of_atom hc ht with hnumber | ⟨p, q, hp, hq, hname, rfl⟩
  · rcases mem_cons.mp hnumber with hnumber | hliteral
    · have hlexed : t.IsLexed := hsound.lexed t (by simp [ht])
      exact absurd (isNumeral_of_isLexed hlexed hnumber) (not_isNumeral_of_mem_literalWords hword)
    · exact absurd hliteral hkind
  · have hvar : (node q [leaf t]).values = .ok [Build.plainVar (.str t.text)] := by
      refine (values_rule_eq_ok_iff hq).mpr ⟨[.token "CNAME" t.text], _, ?_, rfl, rfl⟩
      rw [valuesAll_singleton, values_name hname]
    refine (values_rule_eq_ok_iff hp).mpr ⟨[Build.plainVar (.str t.text)], _, ?_, rfl, rfl⟩
    rw [valuesAll_singleton, hvar]

end Derivation

/-- **Every literal is read as a variable.**  In the syntax tree of a text, an operand that is one
    of the words for a truth value or for nothing is the variable of that name.  No token of the
    text is a literal. -/
theorem literals_read_as_names {text : String} {v : Value} (h : programOfText text = .ok v) :
    ∃ d, derive text.toList = .ok d ∧ d.values = .ok [v] ∧
      (∀ t ∈ d.tokens, t.kind ≠ .boolean ∧ t.kind ≠ .null) ∧
      ∀ c ∈ d.parts, c.symbol = Rule.atom.symbol → ∀ t, c.tokens = [t] →
        t.text ∈ literalWords → c.values = .ok [Build.plainVar (.str t.text)] := by
  obtain ⟨d, hderive, hvalues⟩ := programOfText_eq_ok_iff.mp h
  obtain ⟨qs, -, hscans⟩ := exists_run_of_derive hderive
  have hkinds (t : Token) (ht : t ∈ d.tokens) : t.kind ∉ Terminal.literals := by
    obtain ⟨q, cs, rest, hlex⟩ := hscans.exists_lexIn t ht
    exact ne_literal_of_lexIn hlex
  refine ⟨d, hderive, hvalues, fun t ht => ?_, fun c hc hatom t ht hword => ?_⟩
  · simpa [Terminal.literals] using hkinds t ht
  · have hsound := (derive_isSound hderive).1.of_mem_parts c hc
    have hmem : t ∈ d.tokens := Derivation.mem_tokens_of_mem_parts (by simp [ht]) d hc
    exact Derivation.values_of_literalWord hsound hatom ht hword (hkinds t hmem)

/-- A truth value in a condition and nothing in an assignment. -/
theorem literals_read_as_names_loop :
    ∃ v, programOfText "begin while (true) do x := NULL end" = .ok v ∧
      ∃ d, derive "begin while (true) do x := NULL end".toList = .ok d ∧ d.values = .ok [v] ∧
        (∀ t ∈ d.tokens, t.kind ≠ .boolean ∧ t.kind ≠ .null) ∧
        ∀ c ∈ d.parts, c.symbol = Rule.atom.symbol → ∀ t, c.tokens = [t] →
          t.text ∈ literalWords → c.values = .ok [Build.plainVar (.str t.text)] := by
  obtain ⟨v, hv⟩ := exists_eq_ok_of_isOk (x := programOfText "begin while (true) do x := NULL end")
    (by decide +kernel)
  exact ⟨v, hv, literals_read_as_names hv⟩

/-- A truth value that is assigned is a variable. -/
theorem truth_value_is_variable :
    ((programOfText "begin x := true end").toOption.any fun v =>
      v.nodes.any fun n => (Value.node n.1 n.2).same
        (.node .assignment [Build.plainVar (.str "x"), Build.plainVar (.str "true")])) = true := by
  decide +kernel

end Ordo
