import Ordo.Proofs.Feeding
import Ordo.Proofs.Results
import Ordo.Syntax.Build

namespace Ordo

/-!
# Names in syntax trees

What names are given to in syntax trees, and which reserved words are kept from them.

* `Value.nodes` — the nodes in a syntax tree;
* `NameRole`, `Value.namesAs` — what is named, and the names in a syntax tree;
* `NameRole.reserved` — the words that cannot name it;
* `Value.EachNode`, `Build.eachNode_ofRule` — what holds of all nodes in the parts of a rule, and of
  the nodes that it makes, holds of all nodes in what it makes;
* `Value.IsFree` — a syntax tree without such names;
* `Build.isFree_ofRule` — what a rule makes is free of them if its parts and its own name are.
-/

open List Value

/-! ### Names in syntax trees -/

namespace Value

mutual

/-- The nodes in a value, with their fields. -/
def nodes : Value → List (Kind × List Value)
  | node k fields => (k, fields) :: nodesAll fields
  | list vs | tuple vs | tree _ vs => nodesAll vs
  | _ => []

/-- The nodes in several values. -/
def nodesAll : List Value → List (Kind × List Value)
  | [] => []
  | v :: vs => v.nodes ++ nodesAll vs

end

theorem mem_nodesAll_iff {n : Kind × List Value} {vs : List Value} :
    n ∈ nodesAll vs ↔ ∃ v ∈ vs, n ∈ v.nodes := by
  induction vs with
  | nil => simp [nodesAll]
  | cons v vs ih => simp [nodesAll, ih]

/-- The names that a field holds: a text, texts, or the name of a variable. -/
def fieldNames : Value → List String
  | str s => [s]
  | list vs => vs.filterMap text?
  | node .var (str s :: _) => [s]
  | _ => []

end Value

/-- What names are given to in syntax trees. -/
inductive NameRole
  | definedClass | classAttribute | subroutine | parameter | parameterClass | loopVariable
  /-- A variable that is assigned to. -/
  | assigned
  /-- A variable, wherever it stands. -/
  | mentioned
  | field
  /-- A subroutine that is called by a statement. -/
  | calledByStatement
  /-- A function that is called in an expression. -/
  | calledInExpression
  deriving DecidableEq, Repr

namespace NameRole

/-- The kind of node that has the name. -/
def kind : NameRole → Kind
  | definedClass | classAttribute => .classDefinition
  | subroutine => .subroutine
  | parameter | parameterClass => .parameter
  | loopVariable => .forLoop
  | assigned => .assignment
  | mentioned | field => .var
  | calledByStatement => .callStatement
  | calledInExpression => .functionCall

/-- The field that holds the name. -/
def fieldName : NameRole → String
  | definedClass | subroutine | parameter | mentioned => "name"
  | classAttribute => "attributes"
  | parameterClass => "class_name"
  | loopVariable | assigned => "variable"
  | field => "field"
  | calledByStatement | calledInExpression => "function_name"

/-- The rule whose phrases give the name. -/
def rule : NameRole → Rule
  | definedClass | classAttribute => .classDefinition
  | subroutine => .subroutineDefinition
  | parameter | parameterClass => .parameter
  | loopVariable => .forLoop
  | assigned => .assignment
  | mentioned | field => .designator
  | calledByStatement => .callStatement
  | calledInExpression => .functionCall

/-- The names that a node gives. -/
def namesIn (role : NameRole) (n : Kind × List Value) : List String :=
  if n.1 = role.kind then
    ((n.1.fields.zip n.2).lookup role.fieldName).elim [] fieldNames
  else []

/-- The reserved words that cannot be such a name. -/
def reserved : NameRole → List Terminal
  | definedClass | subroutine => [.kwBegin]
  | assigned => [.kwFor, .kwWhile, .kwRepeat, .kwIf, .kwCall, .kwReturn]
  | calledInExpression => [.kwLength]
  | _ => []

end NameRole

/-- The names of a role in a syntax tree. -/
def Value.namesAs (role : NameRole) (v : Value) : List String := v.nodes.flatMap role.namesIn

namespace Value

/-! ### Properties of all nodes -/

/-- All nodes in a value have a property. -/
def EachNode (P : Kind × List Value → Prop) (v : Value) : Prop := ∀ n ∈ v.nodes, P n

section

variable {P : Kind × List Value → Prop}

theorem eachNode_of_nodes_eq_nil {v : Value} (h : v.nodes = []) : v.EachNode P := by
  simp [EachNode, h]

@[simp] theorem eachNode_none : none.EachNode P := eachNode_of_nodes_eq_nil rfl

@[simp] theorem eachNode_bool (b : Bool) : (bool b).EachNode P := eachNode_of_nodes_eq_nil rfl

@[simp] theorem eachNode_int (i : Int) : (int i).EachNode P := eachNode_of_nodes_eq_nil rfl

@[simp] theorem eachNode_float (f : Float) : (float f).EachNode P := eachNode_of_nodes_eq_nil rfl

@[simp] theorem eachNode_str (s : String) : (str s).EachNode P := eachNode_of_nodes_eq_nil rfl

@[simp] theorem eachNode_token (name s : String) : (token name s).EachNode P :=
  eachNode_of_nodes_eq_nil rfl

variable {vs : List Value}

theorem forall_mem_nodesAll : (∀ n ∈ nodesAll vs, P n) ↔ ∀ v ∈ vs, v.EachNode P := by
  simp only [mem_nodesAll_iff, EachNode]
  exact ⟨fun h v hv n hn => h n ⟨v, hv, hn⟩, fun h n ⟨v, hv, hn⟩ => h v hv n hn⟩

@[simp] theorem eachNode_node {k : Kind} {fields : List Value} :
    (node k fields).EachNode P ↔ P (k, fields) ∧ ∀ v ∈ fields, v.EachNode P := by
  rw [EachNode, nodes, forall_mem_cons, forall_mem_nodesAll]

@[simp] theorem eachNode_list : (list vs).EachNode P ↔ ∀ v ∈ vs, v.EachNode P :=
  forall_mem_nodesAll

@[simp] theorem eachNode_tuple : (tuple vs).EachNode P ↔ ∀ v ∈ vs, v.EachNode P :=
  forall_mem_nodesAll

@[simp] theorem eachNode_tree {rule : Value} : (tree rule vs).EachNode P ↔ ∀ v ∈ vs, v.EachNode P :=
  forall_mem_nodesAll

end

end Value

/-! ### What the rules make -/

/-- The kind of node that a rule makes, if it makes one. -/
def Rule.makes : Rule → Option Kind
  | program => some .program
  | classDefinition => some .classDefinition
  | algorithm => some .algorithm
  | mainAlgorithm => some .mainAlgorithm
  | subroutineDefinition => some .subroutine
  | arrayParameter | objectParameter | simpleParameter => some .parameter
  | assignment => some .assignment
  | forLoop => some .forLoop
  | whileLoop => some .whileLoop
  | repeatLoop => some .repeatLoop
  | ifStatement => some .ifStatement
  | callStatement => some .callStatement
  | returnStatement => some .returnStatement
  | comment => some .comment
  | block => some .block
  | designator => some .var
  | logicalOr | logicalAnd | comparison | arithmetic | term | power => some .binaryOp
  | logicalNot | factor => some .unaryOp
  | functionCall => some .functionCall
  | length => some .length
  | ceiling => some .ceiling
  | floor => some .floor
  | _ => none

/-- The kinds of the nodes that a rule makes inside others: a loop has ends and a body, and a chain
    has chains in it. -/
def Rule.makesInside : Rule → List Kind
  | forLoop => [.number, .block]
  | logicalOr | logicalAnd | comparison | arithmetic | term | power => [.binaryOp]
  | _ => []

namespace Build

variable {parts : List Value} {v : Value}

theorem mem_of_part {n : Nat} (h : part parts n = .ok v) : v ∈ parts := by
  unfold part at h
  split at h
  · rename_i w hw
    obtain rfl := Except.ok.inj h
    exact mem_of_getElem? hw
  · cases h

theorem mem_of_lastPart (h : lastPart parts = .ok v) : v ∈ parts := by
  unfold lastPart at h
  split at h
  · rename_i w hw
    obtain rfl := Except.ok.inj h
    exact mem_of_getLast? hw
  · cases h

theorem assignment_eq_ok (h : assignment parts = .ok v) :
    ∃ target value, part parts 0 = .ok target ∧ value ∈ parts
      ∧ v = .node .assignment [target, value] := by
  obtain ⟨target, htarget, h⟩ := bind_eq_ok_iff.mp h
  cases hfind : (parts.drop 1).find? isExpression with
  | some value =>
    rw [hfind] at h
    have hvalue := mem_of_mem_drop (mem_of_find?_eq_some hfind)
    exact ⟨target, value, htarget, hvalue, (pure_eq_ok_iff.mp h).symm⟩
  | none =>
    rw [hfind] at h
    obtain ⟨value, hvalue, h⟩ := bind_eq_ok_iff.mp h
    exact ⟨target, value, htarget, mem_of_lastPart hvalue, (pure_eq_ok_iff.mp h).symm⟩

variable {P : Kind × List Value → Prop}

attribute [local simp] Value.part

theorem eachNode_valueOf {w : Value} (hv : v.EachNode P) (h : valueOf v = .ok w) :
    w.EachNode P := by
  rw [valueOf, mapError_eq_ok_iff] at h
  cases v with
  | node k fields =>
    cases hfield : (node k fields).field? "value" with
    | none => simp [hfield] at h
    | some x =>
      obtain rfl : x = w := by simpa [hfield] using h
      exact (eachNode_node.mp hv).2 x (of_mem_zip (Automaton.mem_of_lookup hfield)).2
  | token name s =>
    obtain rfl : str s = w := by simpa using h
    exact eachNode_str s
  | _ => simp [field?] at h

section

variable {parts : List Value} {v : Value} (hparts : ∀ v ∈ parts, v.EachNode P)
include hparts

variable (p : Value → Bool) {n : Nat}

theorem eachNode_part (h : part parts n = .ok v) : v.EachNode P :=
  hparts v (mem_of_part h)

theorem eachNode_lastPart (h : lastPart parts = .ok v) : v.EachNode P :=
  hparts v (mem_of_lastPart h)

theorem eachNode_getElem?_getD {default : Value} (h : default.EachNode P) :
    ((parts[n]?).getD default).EachNode P := by
  cases hn : parts[n]? with
  | none => exact h
  | some w => exact hparts w (mem_of_getElem? hn)

theorem eachNode_filter : ∀ v ∈ parts.filter p, v.EachNode P :=
  fun v hv => hparts v (mem_filter.mp hv |>.1)

theorem eachNode_drop (n : Nat) : ∀ v ∈ parts.drop n, v.EachNode P :=
  fun v hv => hparts v (mem_of_mem_drop hv)

theorem eachNode_getLast?_getD : (((parts.filter p).getLast?).getD .none).EachNode P := by
  cases hlast : (parts.filter p).getLast? with
  | none => exact eachNode_none
  | some w => exact eachNode_filter hparts p w (mem_of_getLast? hlast)

theorem eachNode_nodesOf (kind : Kind) : ∀ v ∈ nodesOf kind parts, v.EachNode P := by
  intro v hv
  obtain ⟨part, hpart, hv⟩ := mem_flatMap.mp hv
  have heach := hparts part hpart
  split at hv
  · split at hv
    · exact eachNode_list.mp heach v hv
    · cases hv
  · split at hv
    · obtain rfl := mem_singleton.mp hv
      exact heach
    · cases hv

end

section

variable (hbinary : ∀ fields, P (.binaryOp, fields))
include hbinary

theorem eachNode_leftChain (operator : String) {first : Value} {rest : List Value}
    (hfirst : first.EachNode P) (hrest : ∀ v ∈ rest, v.EachNode P) :
    (leftChain operator first rest).EachNode P := by
  induction rest generalizing first with
  | nil => exact hfirst
  | cons v rest ih =>
    obtain ⟨hv, hrest⟩ := forall_mem_cons.mp hrest
    exact ih (by simp [hbinary, hfirst, hv]) hrest

theorem eachNode_operatorChain {operator : Value → Value}
    (hoperator : ∀ v : Value, v.EachNode P → (operator v).EachNode P) :
    ∀ {left : Value} {rest : List Value}, left.EachNode P → (∀ v ∈ rest, v.EachNode P) →
      (operatorChain operator left rest).EachNode P
  | _, [], hleft, _ | _, [_], hleft, _ => hleft
  | left, op :: right :: rest, hleft, hrest => by
    simp only [forall_mem_cons] at hrest
    rw [operatorChain]
    refine eachNode_operatorChain hoperator ?_ hrest.2.2
    simp [hbinary, hoperator op hrest.1, hleft, hrest.2.1]

theorem eachNode_rightChain : ∀ {parts : List Value} {v : Value}, (∀ v ∈ parts, v.EachNode P) →
    rightChain parts = .ok v → v.EachNode P
  | [], _, _, h => by cases h
  | [first], v, hparts, h => by
    obtain rfl := Except.ok.inj h
    exact hparts first (by simp)
  | first :: second :: rest, v, hparts, h => by
    obtain ⟨hfirst, hrest⟩ := forall_mem_cons.mp hparts
    change (rightChain (second :: rest)).map _ = .ok v at h
    obtain ⟨right, hright, rfl⟩ := map_eq_ok_iff.mp h
    simp [hbinary, hfirst, eachNode_rightChain hrest hright]

end

theorem eachNode_unlessSingle {chain : Value → List Value → Value}
    (hparts : ∀ v ∈ parts, v.EachNode P)
    (hchain : ∀ first rest, first.EachNode P → (∀ v ∈ rest, v.EachNode P) →
      (chain first rest).EachNode P) (h : unlessSingle parts chain = .ok v) : v.EachNode P := by
  cases parts with
  | nil => cases h
  | cons first rest =>
    obtain ⟨hfirst, hrest⟩ := forall_mem_cons.mp hparts
    obtain rfl := Except.ok.inj h
    split
    · exact hfirst
    · exact hchain first rest hfirst hrest

section

variable {parts : List Value} {v : Value} (hparts : ∀ v ∈ parts, v.EachNode P)
include hparts

theorem eachNode_variableNode (h : variableNode parts = .ok v)
    (hnode : ∀ fields, v = .node .var fields → P (.var, fields)) : v.EachNode P := by
  unfold variableNode at h
  split at h
  · cases h
  · rename_i name
    obtain ⟨text, htext, rfl⟩ := map_eq_ok_iff.mp h
    refine eachNode_node.mpr ⟨hnode _ rfl, ?_⟩
    simp [eachNode_valueOf (hparts name (by simp)) htext]
  · rename_i head second rest
    simp only [forall_mem_cons] at hparts
    obtain ⟨hhead, hsecond, hrest⟩ := hparts
    obtain ⟨name, hname, h⟩ := bind_eq_ok_iff.mp h
    have hname := eachNode_valueOf hhead hname
    split at h
    · obtain rfl := pure_eq_ok_iff.mp h
      have hindices : (if rest = [] then Value.none else .list rest).EachNode P := by
        split
        · exact Value.eachNode_none
        · exact Value.eachNode_list.mpr hrest
      refine Value.eachNode_node.mpr ⟨hnode _ rfl, ?_⟩
      simp [hname, hindices]
    · obtain rfl := pure_eq_ok_iff.mp h
      have hends := Value.eachNode_tuple.mp hsecond
      refine Value.eachNode_node.mpr ⟨hnode _ rfl, ?_⟩
      simp [hname, hends]
    · split at h <;> cases h
    · obtain rfl := pure_eq_ok_iff.mp h
      refine eachNode_node.mpr ⟨hnode _ rfl, ?_⟩
      simpa [hname, hsecond] using hrest

theorem eachNode_forLoop (h : forLoop parts = .ok v)
    (hnode : ∀ fields, v = .node .forLoop fields → P (.forLoop, fields))
    (hnumber : ∀ fields, P (.number, fields)) (hblock : ∀ fields, P (.block, fields)) :
    v.EachNode P := by
  obtain ⟨u, hu, name, hname, rfl⟩ := bind₂_pure_eq_ok_iff.mp h
  have hdrop := eachNode_drop hparts 1
  have hname := eachNode_valueOf (eachNode_part hparts hu) hname
  have hend : ∀ n, ((((parts.drop 1).filter isExpression)[n]?).getD
      (node .number [.int 0])).EachNode P := fun n =>
    eachNode_getElem?_getD (eachNode_filter hdrop _) (by simp [hnumber])
  have hbody : (((parts.drop 1).find? (isKind .block)).getD
      (node .block [.list []])).EachNode P := by
    cases hfind : (parts.drop 1).find? (isKind .block) with
    | none => simp [hblock]
    | some block => exact hdrop block (mem_of_find?_eq_some hfind)
  refine eachNode_node.mpr ⟨hnode _ rfl, ?_⟩
  simp only [forall_mem_cons, not_mem_nil, false_implies, implies_true, and_true]
  exact ⟨hname, hend 0, hend 1, hbody⟩

end

/-- **What a rule makes** has a property at all its nodes if its parts have, and the nodes that it
    makes itself. -/
theorem eachNode_ofRule {r : Rule} (hparts : ∀ v ∈ parts, v.EachNode P) (h : ofRule r parts = .ok v)
    (hnode : ∀ k fields, r.makes = some k → v = .node k fields → P (k, fields))
    (hinside : ∀ k ∈ r.makesInside, ∀ fields, P (k, fields)) : v.EachNode P := by
  have hmade : ∀ {k fields}, r.makes = some k → v = .node k fields →
      (∀ w ∈ fields, w.EachNode P) → v.EachNode P := by
    rintro k fields hk rfl hfields
    exact eachNode_node.mpr ⟨hnode k fields hk rfl, hfields⟩
  have hpart : ∀ {n w}, part parts n = .ok w → w.EachNode P := fun hw => eachNode_part hparts hw
  have hvalue : ∀ {n u w}, part parts n = .ok u → valueOf u = .ok w → w.EachNode P :=
    fun hu hw => eachNode_valueOf (hpart hu) hw
  have harguments : (argumentsOf parts).EachNode P :=
    eachNode_getElem?_getD hparts (eachNode_list.mpr (by simp))
  cases r with
  | start | parameter | statement | condition | expression | atom => exact hpart h
  | program | algorithm =>
    obtain rfl := Except.ok.inj h
    refine hmade rfl rfl (forall_mem_cons.mpr ⟨?_, forall_mem_singleton.mpr ?_⟩)
    · exact eachNode_list.mpr (eachNode_filter hparts _)
    · exact eachNode_getLast?_getD hparts _
  | classDefinition =>
    obtain ⟨u, hu, h⟩ := bind_eq_ok_iff.mp h
    obtain ⟨name, hname, attributes, hattributes, rfl⟩ := bind₂_pure_eq_ok_iff.mp h
    exact hmade rfl rfl (by simp [hvalue hu hname, hpart hattributes])
  | attributeList =>
    obtain ⟨names, hnames, rfl⟩ := bind_pure_eq_ok_iff.mp h
    refine eachNode_list.mpr fun w hw => ?_
    obtain ⟨u, hu, hw⟩ := exists_of_mem_mapM hnames hw
    exact eachNode_valueOf (hparts u hu) hw
  | mainAlgorithm =>
    obtain rfl := Except.ok.inj h
    refine hmade rfl rfl (forall_mem_cons.mpr ⟨?_, forall_mem_singleton.mpr ?_⟩)
    · exact eachNode_list.mpr (eachNode_nodesOf hparts _)
    · exact eachNode_list.mpr (eachNode_filter hparts _)
  | subroutineDefinition =>
    obtain ⟨u, hu, name, hname, rfl⟩ := bind₂_pure_eq_ok_iff.mp h
    have hdrop := eachNode_drop hparts 1
    refine hmade rfl rfl ?_
    simp only [forall_mem_cons, not_mem_nil, false_implies, implies_true, and_true,
      eachNode_list]
    exact ⟨hvalue hu hname, eachNode_nodesOf hdrop _, eachNode_nodesOf hdrop _,
      eachNode_filter hdrop _⟩
  | parameterList | argumentList =>
    obtain rfl := Except.ok.inj h
    exact eachNode_list.mpr hparts
  | simpleParameter | arrayParameter =>
    obtain ⟨u, hu, name, hname, rfl⟩ := bind₂_pure_eq_ok_iff.mp h
    exact hmade rfl rfl (by simp [hvalue hu hname])
  | objectParameter =>
    obtain ⟨u, hu, className, hclass, h⟩ := bind₂_eq_ok_iff.mp h
    obtain ⟨u', hu', name, hname, rfl⟩ := bind₂_pure_eq_ok_iff.mp h
    exact hmade rfl rfl (by simp [hvalue hu hclass, hvalue hu' hname])
  | assignment =>
    obtain ⟨target, value, htarget, hvalue, rfl⟩ := assignment_eq_ok h
    exact hmade rfl rfl (by simp [hpart htarget, hparts value hvalue])
  | forLoop =>
    exact eachNode_forLoop hparts h (fun _ => hnode _ _ rfl) (hinside _ (by decide))
      (hinside _ (by decide))
  | whileLoop =>
    obtain ⟨condition, hcondition, body, hbody, rfl⟩ := bind₂_pure_eq_ok_iff.mp h
    exact hmade rfl rfl (by simp [hpart hcondition, hpart hbody])
  | repeatLoop =>
    obtain ⟨condition, hcondition, rfl⟩ := bind_pure_eq_ok_iff.mp h
    refine hmade rfl rfl (forall_mem_cons.mpr ⟨?_, forall_mem_singleton.mpr ?_⟩)
    · exact eachNode_list.mpr fun w hw => hparts w (dropLast_subset parts hw)
    · exact eachNode_lastPart hparts hcondition
  | ifStatement =>
    obtain ⟨condition, hcondition, body, hbody, rfl⟩ := bind₂_pure_eq_ok_iff.mp h
    have helse := eachNode_getElem?_getD (n := 2) hparts eachNode_none
    exact hmade rfl rfl (by simp [hpart hcondition, hpart hbody, helse])
  | callStatement | functionCall =>
    obtain ⟨u, hu, name, hname, rfl⟩ := bind₂_pure_eq_ok_iff.mp h
    exact hmade rfl rfl (by simp [hvalue hu hname, harguments])
  | returnStatement | length | ceiling | floor =>
    obtain ⟨u, hu, rfl⟩ := bind_pure_eq_ok_iff.mp h
    exact hmade rfl rfl (by simp [hpart hu])
  | comment =>
    obtain ⟨u, -, h⟩ := bind_eq_ok_iff.mp h
    obtain ⟨text, -, s, -, rfl⟩ := bind₂_pure_eq_ok_iff.mp h
    exact hmade rfl rfl (by simp)
  | block =>
    obtain rfl := Except.ok.inj h
    refine hmade rfl rfl (forall_mem_singleton.mpr ?_)
    exact eachNode_list.mpr (eachNode_filter hparts _)
  | designator => exact eachNode_variableNode hparts h fun _ => hnode _ _ rfl
  | range =>
    obtain ⟨start, hstart, stop, hstop, rfl⟩ := bind₂_pure_eq_ok_iff.mp h
    simp [hpart hstart, hpart hstop]
  | logicalOr | logicalAnd =>
    exact eachNode_unlessSingle hparts (fun _ _ => eachNode_leftChain (hinside _ (by decide)) _) h
  | comparison =>
    exact eachNode_unlessSingle hparts
      (fun _ _ => eachNode_operatorChain (hinside _ (by decide)) fun _ => id) h
  | arithmetic | term =>
    exact eachNode_unlessSingle hparts
      (fun _ _ => eachNode_operatorChain (hinside _ (by decide)) fun _ _ => eachNode_str _) h
  | power => exact eachNode_rightChain (hinside _ (by decide)) hparts h
  | logicalNot =>
    simp only [ofRule] at h
    split at h
    · obtain rfl := Except.ok.inj h
      exact hparts _ (by simp)
    · obtain ⟨u, hu, rfl⟩ := bind_pure_eq_ok_iff.mp h
      exact hmade rfl rfl (by simp [hpart hu])
  | compOp =>
    obtain rfl := Except.ok.inj h
    unfold comparisonSign
    split <;> exact eachNode_str _
  | factor =>
    simp only [ofRule] at h
    split at h
    · obtain rfl := Except.ok.inj h
      exact hparts _ (by simp)
    · obtain ⟨sign, hsign, operand, hoperand, rfl⟩ := bind₂_pure_eq_ok_iff.mp h
      refine hmade rfl rfl
        (forall_mem_cons.mpr ⟨?_, by simp [hpart hoperand]⟩)
      split
      · exact eachNode_str _
      · exact hpart hsign
  | declaration | arrayDeclaration | objectDeclaration =>
    obtain rfl := Except.ok.inj h
    exact eachNode_tree.mpr hparts

end Build

/-! ### Syntax trees without reserved names -/

/-- A node has no name that is reserved from its role. -/
def IsFreeNode (n : Kind × List Value) : Prop :=
  ∀ role : NameRole, ∀ w ∈ role.reserved, ∀ s, w.spelling? = some s → s ∉ role.namesIn n

/-- The kinds of node with a name that some words are reserved from. -/
def Kind.guarded : List Kind := [.classDefinition, .subroutine, .assignment, .functionCall]

theorem NameRole.kind_mem_guarded {role : NameRole} {w : Terminal} (h : w ∈ role.reserved) :
    role.kind ∈ Kind.guarded := by
  cases role <;> first | decide | cases h

theorem isFreeNode_of_kind {k : Kind} (hk : k ∉ Kind.guarded) (fields : List Value) :
    IsFreeNode (k, fields) := by
  intro role w hw s hs
  have hne : k ≠ role.kind := fun h => hk (h ▸ role.kind_mem_guarded hw)
  simp [NameRole.namesIn, hne]

/-- No node in a value has a reserved name. -/
def Value.IsFree (v : Value) : Prop := ∀ n ∈ v.nodes, IsFreeNode n

namespace Build

/-- The rules that make nodes with a name that some words are reserved from. -/
def guardedRules : List Rule :=
  [.classDefinition, .subroutineDefinition, .assignment, .functionCall]

variable {r : Rule}

theorem not_mem_guarded_of_makes (hr : r ∉ guardedRules) {k : Kind}
    (hk : r.makes = some k) : k ∉ Kind.guarded := by
  have htable : (guardedRules.contains r || r.makes.all fun k => !Kind.guarded.contains k)
      = true := by
    cases r <;> rfl
  simpa [hr, hk] using htable

theorem not_mem_guarded_of_makesInside {k : Kind} (hk : k ∈ r.makesInside) : k ∉ Kind.guarded := by
  have htable : (r.makesInside.all fun k => !Kind.guarded.contains k) = true := by
    cases r <;> rfl
  simpa using all_eq_true.mp htable k hk

/-- **What a rule makes** has no reserved names if its parts have none and neither has the node
    itself. -/
theorem isFree_ofRule {parts : List Value} {v : Value}
    (hparts : ∀ v ∈ parts, v.IsFree) (h : ofRule r parts = .ok v)
    (hnode : r ∈ guardedRules → ∀ k fields, v = .node k fields → IsFreeNode (k, fields)) :
    v.IsFree := by
  refine eachNode_ofRule hparts h (fun k fields hk hv => ?_) fun k hk fields => ?_
  · by_cases hr : r ∈ guardedRules
    · exact hnode hr k fields hv
    · exact isFreeNode_of_kind (not_mem_guarded_of_makes hr hk) fields
  · exact isFreeNode_of_kind (not_mem_guarded_of_makesInside hk) fields

end Build

/-! ### Tokens -/

theorem eachNode_numberIn {P : Kind × List Value → Prop} {v w : Value} (h : numberIn v = .ok w) :
    w.EachNode P := by
  unfold numberIn at h
  split at h
  · unfold numberOf at h
    split at h <;> split at h <;> cases h <;> simp
  · obtain ⟨_, -, h⟩ := bind_eq_ok_iff.mp h
    cases h

/-- A token has no names in it. -/
theorem Terminal.isFree_value {t : Terminal} {name text : String} {v : Value}
    (h : t.value (.token name text) = .ok v) : v.IsFree := by
  show v.EachNode IsFreeNode
  unfold Terminal.value at h
  split at h
  · obtain ⟨u, -, n, hn, rfl⟩ := bind₂_pure_eq_ok_iff.mp h
    simp [isFreeNode_of_kind, Kind.guarded, eachNode_numberIn hn]
  · obtain ⟨u, -, s, -, rfl⟩ := bind₂_pure_eq_ok_iff.mp h
    simp [isFreeNode_of_kind, Kind.guarded]
  · obtain rfl := Except.ok.inj h
    simp [isFreeNode_of_kind, Kind.guarded]
  · obtain rfl := Except.ok.inj h
    exact eachNode_token _ _

end Ordo
