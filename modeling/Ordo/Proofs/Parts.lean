import Ordo.Proofs.Chains
import Ordo.Proofs.Typing

namespace Ordo

/-!
# The parts of a rule

The right sides of rules allow parts in a few forms, whatever stands for the symbols.  From parts
of these forms the rules make nodes.

* `Typing.exists_parts_of_chain`, `Typing.exists_statement_part`, `Typing.exists_many_append`,
  `Typing.exists_signature` — the forms;
* `assignment_ok`, `forLoop_ok`, `repeatLoop_ok`, `algorithm_ok`, `program_ok` — what is made.
-/

open List

open Value (isKind isExpression)

/-- The rules for statements of one kind. -/
def Rule.isStatementKind : Rule → Bool
  | declaration | assignment | forLoop | whileLoop | repeatLoop | ifStatement | callStatement
  | returnStatement | comment => true
  | _ => false

/-! ### Forms of parts -/

namespace Typing

variable {α : Type} {T : Typing α} {vs : List α}

variable {m : Repetition}

/-- A repetition that may be left out. -/
theorem many_or_eq_nil (h : T.OfPhrase (.opt m) vs) : T.many m vs ∨ vs = [] := by
  rcases h with ⟨ws, _, rfl, hws, rfl⟩ | rfl
  · exact .inl (by rwa [append_nil])
  · exact .inr rfl

/-- The parts of a chain: an operand, and what is repeated after it. -/
theorem exists_parts_of_chain {r : Rule} (h : T.OfPhrase (Phrase.inTurn r [.opt m]) vs) :
    ∃ first rest, vs = first :: rest ∧ T.rule r first ∧ (T.many m rest ∨ rest = []) := by
  obtain ⟨first, rest, rfl, hfirst, hrest⟩ := h
  exact ⟨first, rest, rfl, hfirst, many_or_eq_nil hrest⟩

/-- A statement is one of its kinds, with or without a semicolon. -/
theorem exists_statement_part (h : T.OfPhrase Rule.statement.phrase vs) :
    ∃ r v, vs = [v] ∧ T.rule r v ∧ r.isStatementKind = true := by
  rcases h with (((((((⟨v, _, rfl, hv, rfl | rfl⟩ | ⟨v, _, rfl, hv, rfl | rfl⟩)
    | ⟨v, _, rfl, hv, rfl⟩) | ⟨v, _, rfl, hv, rfl⟩) | ⟨v, _, rfl, hv, rfl⟩)
    | ⟨v, _, rfl, hv, rfl⟩) | ⟨v, _, rfl, hv, rfl | rfl⟩) | ⟨v, _, rfl, hv, rfl | rfl⟩)
    | ⟨v, _, rfl, hv, rfl⟩
  all_goals exact ⟨_, v, rfl, hv, rfl⟩

/-- A program's algorithm comes after its classes, and its main part after its subroutines. -/
theorem exists_many_append {r : Rule} (h : T.OfPhrase (Phrase.inTurn (.opt m) [r]) vs) :
    ∃ before last, vs = before ++ [last] ∧ (T.many m before ∨ before = []) ∧ T.rule r last := by
  rcases h with ⟨before, _, rfl, hbefore, last, _, rfl, hlast, rfl⟩ | ⟨last, _, rfl, hlast, rfl⟩
  · exact ⟨before, last, rfl, .inl hbefore, hlast⟩
  · exact ⟨[], last, rfl, .inr rfl, hlast⟩

/-- After a subroutine's name come its parameters, if it has any, and its statements. -/
theorem exists_signature (h : T.OfPhrase Rule.subroutineDefinition.phrase vs) :
    ∃ name heads statements, vs = name :: (heads ++ statements) ∧ T.token .cname name ∧
      (heads = [] ∨ ∃ parameters, heads = [parameters] ∧ T.rule .parameterList parameters) ∧
      (T.many .statements statements ∨ statements = []) := by
  rcases h with ⟨name, _, rfl, hname, ⟨parameters, rest, rfl, hparameters, hrest⟩ | hrest⟩
  · exact ⟨name, [parameters], rest, rfl, hname, .inr ⟨parameters, rfl, hparameters⟩,
      many_or_eq_nil hrest⟩
  · exact ⟨name, [], _, rfl, hname, .inl rfl, many_or_eq_nil hrest⟩

theorem forall_mem_of_many {P : α → Prop} (h : (∀ v ∈ vs, P v) ∨ vs = []) : ∀ v ∈ vs, P v := by
  rcases h with h | rfl
  · exact h
  · exact forall_mem_nil _

end Typing

/-! ### What is made of parts -/

open Build

variable {v : Value} {k l : Kind} {vs : List Value}

theorem isKind_of_isExpression (hk : k.isExpression = false)
    (h : v.isExpression = true) : v.isKind k = false := by
  cases v with
  | node l fs =>
    simp only [isExpression] at h
    simp only [isKind, beq_eq_false_iff_ne]
    rintro rfl
    simp [h] at hk
  | _ => rfl

theorem assignment_ok {target value : Value} (arrow : String) (h : value.isExpression = true) :
    Build.assignment [target, .token "ASSIGN" arrow, value]
      = .ok (.node .assignment [target, value]) := by
  have hfind : find? isExpression [.token "ASSIGN" arrow, value] = some value := by
    rw [find?_cons_of_neg (by simp [isExpression]), find?_cons_of_pos h]
  simp only [Build.assignment, part, drop_succ_cons, drop_zero, hfind]
  rfl

theorem forLoop_ok {start stop : Value} (x arrow : String) (body : Value)
    (hstart : start.isExpression = true) (hstop : stop.isExpression = true) :
    Build.forLoop [.token "CNAME" x, .token "ASSIGN" arrow, start, stop, .node .block [body]]
      = .ok (.node .forLoop [.str x, start, stop, .node .block [body]]) := by
  have hends : filter isExpression
      [.token "ASSIGN" arrow, start, stop, .node .block [body]] = [start, stop] := by
    simp [filter_cons, hstart, hstop]
    simp [isExpression, Kind.isExpression]
  have hblock : find? (isKind .block)
      [.token "ASSIGN" arrow, start, stop, .node .block [body]] = some (.node .block [body]) := by
    have hblock : Kind.block.isExpression = false := rfl
    rw [find?_cons_of_neg (by simp [isKind]),
      find?_cons_of_neg (by simp [isKind_of_isExpression hblock hstart]),
      find?_cons_of_neg (by simp [isKind_of_isExpression hblock hstop]),
      find?_cons_of_pos (by simp [isKind])]
  simp only [Build.forLoop, part, drop_succ_cons, drop_zero, hends, hblock]
  rfl

theorem variableNode_indexed (x : String) (vs : List Value) (hv : v.isExpression = true) :
    variableNode (.token "CNAME" x :: v :: vs) = .ok (.node .var
      [.str x, .list (v :: vs), .none, .none, .bool false, .none, .none]) := by
  cases v with
  | node k fs => rfl
  | _ => simp [isExpression] at hv

theorem repeatLoop_ok (body : List Value) (condition : Value) :
    ofRule .repeatLoop (body ++ [condition]) = .ok (.node .repeatLoop [.list body, condition]) := by
  simp only [ofRule, lastPart, getLast?_append, getLast?_singleton, dropLast_concat]
  rfl

theorem isKind_of_isStatement (hk : k.isStatement = false)
    (h : v.isStatement = true) : v.isKind k = false := by
  cases v with
  | node l fs =>
    simp only [Value.isStatement] at h
    simp only [isKind, beq_eq_false_iff_ne]
    rintro rfl
    simp [h] at hk
  | _ => rfl

theorem nodesOf_of_isStatement (hk : k.isStatement = false)
    (h : ∀ v ∈ vs, v.isStatement = true) : nodesOf k vs = [] := by
  simp only [nodesOf, flatMap_eq_nil_iff]
  intro v hv
  have hkind := isKind_of_isStatement hk (h v hv)
  cases v with
  | list xs => exact absurd (h _ hv) (by simp [Value.isStatement])
  | _ => simp [hkind]

theorem nodesOf_append (k : Kind) (vs ws : List Value) :
    nodesOf k (vs ++ ws) = nodesOf k vs ++ nodesOf k ws := by
  simp only [nodesOf, flatMap_append]

theorem mapM_valueOf_names (xs : List String) :
    (xs.map (Value.token "CNAME")).mapM valueOf = .ok (xs.map .str) := by
  induction xs with
  | nil => rfl
  | cons x xs ih =>
    have hx : valueOf (.token "CNAME" x) = .ok (.str x) := rfl
    simp only [map_cons, mapM_cons, hx, ih]
    rfl

theorem isKind_of_isKind (hkl : k ≠ l) (h : v.isKind k = true) : v.isKind l = false := by
  cases v with
  | node m fs =>
    simp only [isKind, beq_iff_eq] at h
    rw [isKind, h, beq_eq_false_iff_ne]
    exact hkl
  | _ => rfl

/-- Nodes of one kind and then a node of another kind. -/
theorem filter_isKind_snoc (hkl : k ≠ l) (hvs : ∀ v ∈ vs, v.isKind k = true) (fs : List Value) :
    (vs ++ [Value.node l fs]).filter (isKind k) = vs ∧
      (vs ++ [Value.node l fs]).filter (isKind l) = [.node l fs] := by
  have hother : ∀ v ∈ vs, ¬ v.isKind l = true := by
    intro v hv
    rw [isKind_of_isKind hkl (hvs v hv)]
    exact Bool.false_ne_true
  constructor
  · rw [filter_append, filter_eq_self.mpr hvs]
    simp [isKind, hkl.symm]
  · rw [filter_append, filter_eq_nil_iff.mpr hother]
    simp [isKind]

theorem algorithm_ok {subroutines : List Value}
    (h : ∀ s ∈ subroutines, s.isKind .subroutine = true) (fs : List Value) :
    ofRule .algorithm (subroutines ++ [.node .mainAlgorithm fs])
      = .ok (.node .algorithm [.list subroutines, .node .mainAlgorithm fs]) := by
  obtain ⟨hsubroutines, hmain⟩ := filter_isKind_snoc (l := .mainAlgorithm) (by decide) h fs
  simp only [ofRule, hsubroutines, hmain]
  rfl

theorem program_ok {classes : List Value} (h : ∀ c ∈ classes, c.isKind .classDefinition = true)
    (fs : List Value) : ofRule .program (classes ++ [.node .algorithm fs])
      = .ok (.node .program [.list classes, .node .algorithm fs]) := by
  obtain ⟨hclasses, halgorithm⟩ := filter_isKind_snoc (l := .algorithm) (by decide) h fs
  simp only [ofRule, hclasses, halgorithm]
  rfl

end Ordo
