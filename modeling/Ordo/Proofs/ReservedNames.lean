import Ordo.Proofs.Heads
import Ordo.Proofs.Names

namespace Ordo

open Automaton

/-!
# Reserved words as names

Which reserved words can name what in the syntax tree of a text.  A name is taken from the text
wherever the reserved word itself could not stand, so almost every reserved word can name almost
everything; the exceptions are the words that can stand wherever such a name can come first.

* `Derivation.exists_name_of_role` — the name of a node is the first token of its phrase;
* `Derivation.isFree_values`, `isFree_programOfText` — syntax trees have no reserved names;
* `NameRole.sample` — texts with all other words as names;
* `reserved_names_iff` — which words can be names.
-/

open List String

/-! ### Syntax trees of derivations -/

variable {role : NameRole} {w : Terminal} {text : String} {rest : List Value} {v : Value}
  {p : Production} {ds : List Derivation}

theorem NameRole.bars_reserved (h : w ∈ role.reserved) : Bars (.rule role.rule) w := by
  have htable : (role.reserved.all fun w => bars (.rule role.rule) w) = true := by
    cases role <;> decide +kernel
  exact bars_of_table (all_eq_true.mp htable w h)

theorem NameRole.isReserved_of_mem (h : w ∈ role.reserved) : w.isReserved = true := by
  have hall : role.reserved.all Terminal.isReserved = true := by cases role <;> decide
  exact all_eq_true.mp hall w h

theorem NameRole.exists_of_mem_guardedRules {r : Rule} (h : r ∈ Build.guardedRules) :
    ∃ role : NameRole, role.rule = r ∧ role.reserved ≠ [] := by
  simp only [Build.guardedRules, mem_cons, not_mem_nil, or_false] at h
  rcases h with rfl | rfl | rfl | rfl
  · exact ⟨.definedClass, rfl, by decide⟩
  · exact ⟨.subroutine, rfl, by decide⟩
  · exact ⟨.assigned, rfl, by decide⟩
  · exact ⟨.calledInExpression, rfl, by decide⟩

theorem NameRole.eq_of_kind_eq {role' : NameRole} (hkind : role.kind = role'.kind)
    (h : role.reserved ≠ []) (h' : role'.reserved ≠ []) : role = role' := by
  cases role <;> cases role' <;>
    first | rfl | exact absurd rfl h | exact absurd rfl h' | cases hkind

namespace Derivation

/-- Whether all phrases of a rule start with a symbol. -/
def startsWith (r : Rule) (x : Symbol) : Bool := r.phrase.expansions.all (·.head? == some x)

variable {p : Production} {ds : List Derivation} {r : Rule} {d : Derivation}

theorem exists_first_child {x : Symbol}
    (hd : (node p ds).IsSound) (hp : p.lhs = .rule r) (hr : startsWith r x = true) :
    ∃ d es, ds = d :: es ∧ d.symbol = x := by
  obtain ⟨hlegal, hsymbols⟩ := hd.isLegal
  rw [hp] at hlegal
  have hhead := all_eq_true.mp hr p.rhs hlegal
  rw [← hsymbols] at hhead
  cases ds with
  | nil => simp at hhead
  | cons d es => exact ⟨d, es, rfl, by simpa using hhead⟩

theorem exists_leaf_of_symbol {t : Terminal} (h : d.symbol = .terminal t) :
    ∃ token : Token, d = .leaf token ∧ token.kind = t := by
  cases d with
  | leaf token => exact ⟨token, rfl, by simpa [symbol] using h⟩
  | node p ds => simp [symbol] at h

theorem exists_node_of_symbol (h : d.symbol = .nonterminal (.rule r)) :
    ∃ p ds, d = .node p ds ∧ p.lhs = .rule r := by
  cases d with
  | leaf t => simp [symbol] at h
  | node p ds => exact ⟨p, ds, rfl, by simpa [symbol] using h⟩

theorem values_name {t : Token} (ht : t.kind = .cname) :
    (leaf t).values = .ok [.token "CNAME" t.text] := by
  simp [values, forest, ht, Terminal.isKept, ParseTree.buildAll, ParseTree.build,
    ParseTree.attempt, Terminal.value, Terminal.name]

/-- A phrase that starts with a name has the name as its first part. -/
theorem exists_first_name {parts : List Value} (hd : (node p ds).IsSound) (hp : p.lhs = .rule r)
    (hr : startsWith r (.terminal .cname) = true) (hparts : valuesAll ds = .ok parts) :
    ∃ t rest, (node p ds).head? = some t ∧ t.kind = .cname
      ∧ parts = .token "CNAME" t.text :: rest := by
  obtain ⟨d, es, rfl, hsymbol⟩ := exists_first_child hd hp hr
  obtain ⟨t, rfl, ht⟩ := exists_leaf_of_symbol hsymbol
  obtain ⟨vs, rest, hvs, -, rfl⟩ := valuesAll_cons_eq_ok_iff.mp hparts
  rw [values_name ht] at hvs
  obtain rfl := Except.ok.inj hvs
  exact ⟨t, rest, rfl, ht, rfl⟩

end Derivation

theorem Build.name_eq {u name : Value}
    (hu : part (.token "CNAME" text :: rest) 0 = .ok u) (hname : valueOf u = .ok name) :
    name = .str text := by
  obtain rfl := Except.ok.inj hu
  exact (Except.ok.inj hname).symm

theorem Build.variableNode_name (h : variableNode (.token "CNAME" text :: rest) = .ok v) :
    ∃ fields, v = .node .var (.str text :: fields) := by
  unfold variableNode at h
  split at h
  · rename_i hnil
    cases hnil
  · rename_i name hcons
    obtain ⟨rfl, -⟩ := List.cons.inj hcons
    exact ⟨_, (Except.ok.inj h).symm⟩
  · rename_i head second rest' hcons
    obtain ⟨rfl, -⟩ := List.cons.inj hcons
    obtain ⟨name, hname, h⟩ := bind_eq_ok_iff.mp h
    obtain rfl := Except.ok.inj hname
    split at h
    · exact ⟨_, (pure_eq_ok_iff.mp h).symm⟩
    · exact ⟨_, (pure_eq_ok_iff.mp h).symm⟩
    · split at h <;> cases h
    · exact ⟨_, (pure_eq_ok_iff.mp h).symm⟩

/-- **The name of a node** that some words are reserved from is the first token of its phrase. -/
theorem Derivation.exists_name_of_role (hrole : role.reserved ≠ []) (hd : (node p ds).IsSound)
    (hp : p.lhs = .rule role.rule) (h : (node p ds).values = .ok [v]) :
    ∃ t fields, (node p ds).head? = some t ∧ t.kind = .cname ∧ v = .node role.kind fields
      ∧ role.namesIn (role.kind, fields) = [t.text] := by
  obtain ⟨parts, w, hparts, hrule, hw⟩ := (values_rule_eq_ok_iff hp).mp h
  obtain rfl : v = w := by simpa using hw
  cases role with
  | definedClass =>
    obtain ⟨t, rest, hhead, ht, rfl⟩ := exists_first_name hd hp (by decide) hparts
    obtain ⟨u, hu, name, hname, hrule⟩ := bind₂_eq_ok_iff.mp hrule
    obtain ⟨attributes, -, hrule⟩ := bind_eq_ok_iff.mp hrule
    obtain rfl := Build.name_eq hu hname
    exact ⟨t, _, hhead, ht, (pure_eq_ok_iff.mp hrule).symm, rfl⟩
  | subroutine | calledInExpression =>
    obtain ⟨t, rest, hhead, ht, rfl⟩ := exists_first_name hd hp (by decide) hparts
    obtain ⟨u, hu, name, hname, hrule⟩ := bind₂_eq_ok_iff.mp hrule
    obtain rfl := Build.name_eq hu hname
    exact ⟨t, _, hhead, ht, (pure_eq_ok_iff.mp hrule).symm, rfl⟩
  | assigned =>
    -- the phrase starts with the designator, and the designator with its name
    obtain ⟨d, es, rfl, hsymbol⟩ :=
      exists_first_child (x := .nonterminal (.rule .designator)) hd hp (by decide)
    obtain ⟨q, cs, rfl, hq⟩ := exists_node_of_symbol hsymbol
    obtain ⟨vs, rest, hvs, -, rfl⟩ := valuesAll_cons_eq_ok_iff.mp hparts
    obtain ⟨names, target, hnames, htarget, rfl⟩ := (values_rule_eq_ok_iff hq).mp hvs
    have hchild := hd.of_mem_children (.node q cs) (by simp)
    obtain ⟨t, _, hhead, ht, rfl⟩ := exists_first_name hchild hq (by decide) hnames
    obtain ⟨fields, rfl⟩ := Build.variableNode_name htarget
    obtain ⟨target, value, htarget, -, rfl⟩ := Build.assignment_eq_ok hrule
    obtain rfl := Except.ok.inj htarget
    exact ⟨t, _, hhead, ht, rfl, rfl⟩
  | _ => exact absurd rfl hrole

/-- The nodes of guarded rules have no reserved names. -/
theorem Derivation.isFreeNode_of_isGuarded {r : Rule}
    {k : Kind} {fields : List Value} (hd : (node p ds).IsSound) (hguarded : (node p ds).IsGuarded)
    (hp : p.lhs = .rule r) (hr : r ∈ Build.guardedRules)
    (h : (node p ds).values = .ok [.node k fields]) : IsFreeNode (k, fields) := by
  obtain ⟨role, rfl, hrole⟩ := NameRole.exists_of_mem_guardedRules hr
  obtain ⟨t, fields', hhead, ht, hnode, hnames⟩ := exists_name_of_role hrole hd hp h
  obtain ⟨rfl, rfl⟩ := Value.node.inj hnode
  intro role' w hw s hs hmem
  have hkind : role.kind = role'.kind := by
    by_contra hne
    simp [NameRole.namesIn, hne] at hmem
  obtain rfl := NameRole.eq_of_kind_eq hkind hrole (ne_nil_of_mem hw)
  obtain rfl : s = t.text := by simpa [hnames] using hmem
  have hbars : Bars p.lhs w := hp ▸ NameRole.bars_reserved hw
  have hspells : t.Spells w := ⟨NameRole.isReserved_of_mem hw, hs⟩
  exact hguarded (.node p ds) (by simp [parts]) p ds rfl w hbars ⟨t, hhead, ht, hspells⟩

theorem Derivation.IsGuarded.of_mem_children
    (h : (Derivation.node p ds).IsGuarded) : ∀ d ∈ ds, d.IsGuarded :=
  fun d hd c hc => h c (mem_cons_of_mem _ (mem_partsAll_iff.mpr ⟨d, hd, hc⟩))

theorem Derivation.isFree_values_leaf {t : Token} {vs : List Value}
    (h : (leaf t).values = .ok vs) : ∀ v ∈ vs, v.IsFree := by
  by_cases hkept : t.kind.isKept = true
  · rw [values, forest, if_pos hkept] at h
    obtain ⟨v, ws, hv, hws, rfl⟩ := ParseTree.buildAll_cons_eq_ok_iff.mp h
    obtain rfl := Except.ok.inj hws
    rw [ParseTree.build] at hv
    cases hvalue : t.kind.value (.token t.kind.name t.text) with
    | error e => simp [hvalue, ParseTree.attempt] at hv
    | ok w =>
      obtain rfl : w = v := by simpa [hvalue, ParseTree.attempt] using hv
      simpa using Terminal.isFree_value hvalue
  · obtain rfl : [] = vs := by simpa [values, forest, hkept, ParseTree.buildAll] using h
    simp

namespace Derivation

/-- What is built from several derivations is what is built from one of them. -/
theorem exists_mem_of_mem_valuesAll {ds : List Derivation} {vs : List Value}
    (h : valuesAll ds = .ok vs) {v : Value} (hv : v ∈ vs) :
    ∃ d ∈ ds, ∃ ws, d.values = .ok ws ∧ v ∈ ws := by
  induction ds generalizing vs with
  | nil =>
    obtain rfl : [] = vs := Except.ok.inj h
    simp at hv
  | cons d ds ih =>
    obtain ⟨us, ws, hus, hws, rfl⟩ := valuesAll_cons_eq_ok_iff.mp h
    rcases mem_append.mp hv with hv | hv
    · exact ⟨d, mem_cons_self, us, hus, hv⟩
    · obtain ⟨c, hc, hvalues⟩ := ih hws hv
      exact ⟨c, mem_cons_of_mem d hc, hvalues⟩

/-- **What is built from a derivation** has no reserved names, by induction on the derivation. -/
theorem isFree_values (d : Derivation) (hd : d.IsSound) (hguarded : d.IsGuarded)
    {vs : List Value} (h : d.values = .ok vs) : ∀ v ∈ vs, v.IsFree := by
  induction d generalizing vs with
  | leaf t => exact isFree_values_leaf h
  | node p ds ih =>
    have hds {ws : List Value} (hws : valuesAll ds = .ok ws) : ∀ v ∈ ws, v.IsFree := by
      intro v hv
      obtain ⟨c, hc, us, hus, hv⟩ := exists_mem_of_mem_valuesAll hws hv
      exact ih c hc (hd.of_mem_children c hc) (hguarded.of_mem_children c hc) hus v hv
    cases hp : p.lhs with
    | rule r =>
      obtain ⟨parts, v, hparts, hv, rfl⟩ := (values_rule_eq_ok_iff hp).mp h
      refine forall_mem_singleton.mpr (Build.isFree_ofRule (hds hparts) hv ?_)
      rintro hr k fields rfl
      exact isFreeNode_of_isGuarded hd hguarded hp hr h
    | many m =>
      rw [values_many hp] at h
      exact hds h

end Derivation

/-- **The syntax tree of a text** has no reserved names. -/
theorem isFree_programOfText {program : Value}
    (h : programOfText text = .ok program) : program.IsFree := by
  obtain ⟨d, hd, hvalues⟩ := programOfText_eq_ok_iff.mp h
  exact Derivation.isFree_values d (derive_isSound hd).1 (derive_isGuarded hd) hvalues program
    (by simp)

/-! ### Texts with reserved words as names -/

namespace NameRole

/-- The reserved words that can be such a name. -/
def words (role : NameRole) : List (List Char) :=
  (Terminal.words.filter fun w => !role.reserved.contains w).filterMap fun w =>
    w.spelling?.map toList

/-- All such words, each between two texts. -/
def each (role : NameRole) (before after : String) : List Char :=
  role.words.flatMap fun w => before.toList ++ w ++ after.toList

/-- A text that gives all of them as names.  They stand where little else can: variables as what
    `length` is taken of, and assignments as the bodies of loops. -/
def sample (role : NameRole) : List Char :=
  match role with
  | definedClass => role.each "" "\x7bx\x7d" ++ "begin end".toList
  | classAttribute => "x\x7b".toList ++ role.each "" " " ++ "\x7dbegin end".toList
  | subroutine => role.each "" "()begin end " ++ "begin end".toList
  | parameter => "x(".toList ++ role.each "" "," ++ "x)begin end begin end".toList
  | parameterClass => "x(".toList ++ role.each "" " x," ++ "x)begin end begin end".toList
  | loopVariable => "begin ".toList ++ role.each "for " ":=x to x do " ++ "x:=x end".toList
  | assigned => "begin ".toList ++ role.each "repeat " ":=x until(x)" ++ "end".toList
  | mentioned => "begin x:=x".toList ++ role.each "+length(" ")" ++ " end".toList
  | field => "begin x:=x".toList ++ role.each "+x." "" ++ " end".toList
  | calledByStatement => "begin ".toList ++ role.each "call " "()" ++ "end".toList
  | calledInExpression => "begin x:=x".toList ++ role.each "+" "()" ++ " end".toList

/-- Whether a syntax tree gives all of them as names, in order. -/
def coveredBy (role : NameRole) (v : Value) : Bool :=
  role.words.isSublist ((v.namesAs role).map toList)

theorem sample_names (role : NameRole) : ((derive role.sample).toOption.any fun d =>
    d.values.toOption.any (·.all role.coveredBy)) = true := by
  cases role <;> decide +kernel

theorem exists_program_of_sample (role : NameRole) :
    ∃ program, programOfText (ofList role.sample) = .ok program
      ∧ role.coveredBy program = true := by
  obtain ⟨d, hd, hvalues⟩ := exists_eq_ok_of_any role.sample_names
  obtain ⟨vs, hvs, hcovered⟩ := exists_eq_ok_of_any hvalues
  obtain ⟨program, rfl⟩ := Derivation.eq_singleton_of_values (derive_isSound hd).2 hvs
  refine ⟨program, programOfText_eq_ok_iff.mpr ⟨d, ?_, hvs⟩, by simpa using hcovered⟩
  rw [toList_ofList]
  exact hd

theorem mem_namesAs_of_coveredBy {role : NameRole} {v : Value} {w : Terminal} {s : String}
    (h : role.coveredBy v = true) (hw : w.isReserved = true) (hs : w.spelling? = some s)
    (hfree : w ∉ role.reserved) : s ∈ v.namesAs role := by
  have hword : s.toList ∈ role.words :=
    mem_filterMap.mpr
      ⟨w, mem_filter.mpr ⟨Terminal.mem_words hw, by simpa using hfree⟩, by simp [hs]⟩
  obtain ⟨name, hname, heq⟩ := mem_map.mp ((isSublist_iff_sublist.mp h).subset hword)
  rwa [← toList_inj.mp heq]

end NameRole

/-- **Reserved words are names**: a reserved word can name anything, except a class or a
    subroutine that is defined, a variable that is assigned to, or a function that is called in an
    expression, where the word could itself stand wherever such a name comes first. -/
theorem reserved_names_iff (role : NameRole) {word : Terminal} {s : String}
    (hword : word.isReserved = true) (hs : word.spelling? = some s) :
    (∃ text program, programOfText text = .ok program ∧ s ∈ program.namesAs role)
      ↔ word ∉ role.reserved := by
  constructor
  · rintro ⟨text, program, hprogram, hmem⟩ hreserved
    obtain ⟨n, hn, hmem⟩ := List.mem_flatMap.mp hmem
    exact isFree_programOfText hprogram n hn role word hreserved s hs hmem
  · intro hfree
    obtain ⟨program, hprogram, hcovered⟩ := role.exists_program_of_sample
    exact ⟨_, program, hprogram, NameRole.mem_namesAs_of_coveredBy hcovered hword hs hfree⟩

/-- A variable can be named `end`, and a variable that is assigned to cannot be named `for`. -/
theorem reserved_names_iff_end_for :
    (∃ text program, programOfText text = .ok program ∧ "end" ∈ program.namesAs .mentioned)
      ∧ ¬∃ text program, programOfText text = .ok program ∧ "for" ∈ program.namesAs .assigned :=
  ⟨(@reserved_names_iff .mentioned .kwEnd "end" rfl rfl).mpr (by decide),
    fun h => (@reserved_names_iff .assigned .kwFor "for" rfl rfl).mp h (by decide)⟩

/-- Where an operand is missing, the `end` after it becomes a variable. -/
theorem end_read_as_variable : ((programOfText "begin x := end end").toOption.any fun program =>
    (program.namesAs .mentioned).contains "end") = true := by
  decide +kernel

end Ordo
