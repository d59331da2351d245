import Mathlib.Data.List.Flatten
import Ordo.Proofs.Positions
import Ordo.Proofs.SelfCalls
import Ordo.Proofs.SyntaxTrees

namespace Ordo

/-!
# Lists of calls

Two analyses list where a subroutine calls itself.  One looks below operators only; the other one
looks further into expressions, and at the conditions of conditionals.

* `Expr.hasCall_iff_reached` — what is found below operators;
* `Stmt.callParts`, `Stmt.recursionParts` — the parts of a statement in which each analysis finds
  a call;
* `callSurvey` — both lists are made in the same way, from the parts that are found;
* `Stmt.selfCalls_sublist` — the first list is part of the second one, and all of it if the
  subroutine calls itself plainly (`Subroutine.CallsPlainly`);
* `Subroutine.selfCalls_sublist_recursions` — the same of the position texts.
-/

open List

/-! ### Calls in expressions -/

namespace Expr

/-- The operands of operators. -/
def signed : Expr → List Expr
  | binary _ left right => [left, right]
  | unary _ operand => [operand]
  | _ => []

theorem mem_searched_of_mem_signed {d e : Expr} (h : d ∈ e.signed) : d ∈ e.searched := by
  cases e <;> simp_all [signed, searched]

/-- One step of a search below operators. -/
theorem hasCall_eq (name : Name) (e : Expr) :
    e.hasCall name = (e.isCallOf name || e.signed.any (hasCall name)) := by
  cases e <;> simp [hasCall, isCallOf, signed]

/-- **A search below operators finds** the calls that stand below operators only. -/
theorem hasCall_iff_reached (name : Name) (e : Expr) :
    e.hasCall name = true ↔ ∃ c, c.isCallOf name = true ∧ Reached signed c e :=
  found_iff_reached (fun _ _ h => sizeOf_lt_of_mem_searched (mem_searched_of_mem_signed h))
    (hasCall_eq name) e

theorem Reached.searched_of_signed {e f : Expr} (h : Reached signed e f) :
    Reached searched e f := by
  induction h with
  | here => exact .here
  | deeper hd _ ih => exact .deeper (mem_searched_of_mem_signed hd) ih

/-- What is found below operators is found by the other search too. -/
theorem contains_of_hasCall {name : Name} {e : Expr} (h : e.hasCall name = true) :
    e.contains name = true := by
  obtain ⟨c, hc, hreached⟩ := (hasCall_iff_reached name e).mp h
  exact (contains_iff_reached name e).mpr ⟨c, hc, hreached.searched_of_signed⟩

end Expr

/-! ### Calls in statements -/

namespace Stmt

/-- The value that a statement returns or assigns. -/
def value? : Stmt → Option Expr
  | assign _ value => some value
  | ret value => some value
  | _ => none

/-- The parts of a statement in which a search below operators finds a call. -/
def callParts (name : Name) : Stmt → List Part
  | call f _ => if f.same name then [.call] else []
  | ret value => if value.hasCall name then [.ret] else []
  | assign _ value => if value.hasCall name then [.assignment] else []
  | _ => []

/-- The parts of a statement in which the other search finds a call. -/
def recursionParts (name : Name) : Stmt → List Part
  | call f _ => if f.same name then [.call] else []
  | ret value => if value.contains name then [.ret] else []
  | assign _ value => if value.contains name then [.assignment] else []
  | ifThen condition _ => if condition.contains name then [.condition] else []
  | ifElse condition _ _ => if condition.contains name then [.condition] else []
  | _ => []

theorem sublist_of_imp {a b : Bool} (h : a = true → b = true) (part : Part) :
    (if a then [part] else []).Sublist (if b then [part] else []) := by
  cases a with
  | false => exact nil_sublist _
  | true => rw [h rfl]

theorem callParts_sublist (name : Name) (s : Stmt) :
    (s.callParts name).Sublist (s.recursionParts name) := by
  cases s with
  | call f arguments => exact List.Sublist.refl _
  | ret value => exact sublist_of_imp Expr.contains_of_hasCall .ret
  | assign target value => exact sublist_of_imp Expr.contains_of_hasCall .assignment
  | _ => exact nil_sublist _

/-- The part of a statement in which the other search finds a call, if there is one. -/
def recursionPart? (name : Name) (s : Stmt) : Option Part := (s.recursionParts name).head?

/-- There is one such part at most. -/
theorem recursionParts_eq (name : Name) (s : Stmt) :
    s.recursionParts name = (s.recursionPart? name).toList := by
  have hpart : ∀ (found : Bool) (part : Part), (if found then [part] else [])
      = (if found then [part] else []).head?.toList := by
    intro found part
    cases found <;> rfl
  cases s with
  | call => exact hpart _ _
  | ret => exact hpart _ _
  | assign => exact hpart _ _
  | ifThen => exact hpart _ _
  | ifElse => exact hpart _ _
  | _ => rfl

theorem nodup_recursionParts (name : Name) (s : Stmt) : (s.recursionParts name).Nodup := by
  rw [recursionParts_eq]
  cases s.recursionPart? name <;> simp

end Stmt

/-! ### The lists as surveys -/

/-- How calls are listed on a walk, by the parts in which they are found. -/
def callSurvey (found : Stmt → List Part) : Survey Unit Path where
  own _ index s := (found s).map fun part => [⟨index, part⟩]
  enter known _ := known
  below := List.cons

/-- The paths to the parts of a statement at a place. -/
def Occurrence.pathsTo (o : Occurrence) (parts : List Part) : List Path :=
  parts.map fun part => o.path ++ [⟨o.index, part⟩]

theorem callSurvey_ofOccurrence (found : Stmt → List Part) :
    (callSurvey found).ofOccurrence () = fun o => o.pathsTo (found o.stmt) := by
  funext o
  rw [Survey.ofOccurrence, Occurrence.pathsTo]
  show ((found o.stmt).map _).map _ = _
  rw [map_map]
  refine map_congr_left fun part _ => ?_
  show o.path.foldr List.cons [⟨o.index, part⟩] = o.path ++ [⟨o.index, part⟩]
  simp

theorem makes_recursionsFrom (name : Name) :
    (callSurvey (Stmt.recursionParts name)).Makes fun _ => Stmt.recursionsFrom name where
  nil _ _ := rfl
  cons _ index s body := by
    rw [Stmt.recursionsFrom]
    congr 1
    cases s <;> simp [Stmt.recursions, Expr.recursion, Stmt.parts, Stmt.recursionParts, callSurvey]
    all_goals split <;> rfl

@[simp]
theorem SelfCall.path_below (step : Step) (c : SelfCall) : (c.below step).path = step :: c.path :=
  rfl

theorem makes_selfCallsFrom (name : Name) :
    (callSurvey (Stmt.callParts name)).Makes fun _ index body =>
      (Stmt.selfCallsFrom name index body).map SelfCall.path where
  nil _ _ := rfl
  cons _ index s body := by
    rw [Stmt.selfCallsFrom, map_append]
    congr 1
    cases s <;> simp [Stmt.selfCalls, Expr.selfCall, Stmt.parts, Stmt.callParts, callSurvey,
      Function.comp_def]
    all_goals split <;> rfl

namespace Stmt

/-- **Where each search finds calls**, place by place. -/
theorem recursionsFrom_eq (name : Name) (body : List Stmt) : recursionsFrom name 0 body
    = (occurrencesFrom 0 body).flatMap fun o => o.pathsTo (o.stmt.recursionParts name) := by
  rw [← callSurvey_ofOccurrence]
  exact (makes_recursionsFrom name).eq_flatMap () 0 body

theorem map_path_selfCallsFrom (name : Name) (body : List Stmt) :
    (selfCallsFrom name 0 body).map SelfCall.path
      = (occurrencesFrom 0 body).flatMap fun o => o.pathsTo (o.stmt.callParts name) := by
  rw [← callSurvey_ofOccurrence]
  exact (makes_selfCallsFrom name).eq_flatMap () 0 body

/-! ### The two lists -/

/-- **What is found below operators is part of what the other search finds**, in the same
    order. -/
theorem selfCalls_sublist (name : Name) (body : List Stmt) :
    ((selfCallsFrom name 0 body).map SelfCall.path).Sublist (recursionsFrom name 0 body) := by
  rw [map_path_selfCallsFrom, recursionsFrom_eq]
  exact .flatMap_right _ fun o _ => (callParts_sublist name o.stmt).map _

/-- No path is found twice. -/
theorem nodup_recursionsFrom (name : Name) (body : List Stmt) :
    (recursionsFrom name 0 body).Nodup := by
  have hlabel : recursionLabel .thenBranch ≠ recursionLabel .elseBranch := by decide
  -- paths from one place end in different parts, and places are told apart by their addresses
  rw [recursionsFrom_eq, nodup_flatMap]
  constructor
  · intro o _
    refine (nodup_recursionParts name o.stmt).map fun part part' heq => ?_
    simpa using heq
  · have haddress := nodup_address hlabel 0 body
    rw [nodup_iff_pairwise_ne, pairwise_map] at haddress
    refine haddress.imp fun {o u} hne => ?_
    refine disjoint_left.mpr ?_
    intro p hp hq
    obtain ⟨part, -, rfl⟩ := mem_map.mp hp
    obtain ⟨part', -, heq⟩ := mem_map.mp hq
    obtain ⟨hpath, hlast⟩ := append_inj' heq rfl
    apply hne
    simp_all [Occurrence.address]

end Stmt

/-! ### Plain calls -/

/-- In a statement, calls of the named function stand only in the value that is returned or
    assigned, below operators. -/
def Stmt.CallsPlainly (name : Name) (t : Stmt) : Prop :=
  ∀ e ∈ t.expressions, ∀ c : Expr, c.isCallOf name = true → c.Inside e →
    t.value? = some e ∧ Expr.Reached Expr.signed c e

/-- A subroutine calls itself only by call statements and plainly in their expressions. -/
def Subroutine.CallsPlainly (s : Subroutine) : Prop :=
  ∀ t : Stmt, t.Inside s.body → t.CallsPlainly s.name

namespace Stmt

variable {name : Name}

/-- Both searches find plain calls. -/
theorem callParts_eq {t : Stmt} (h : t.CallsPlainly name) :
    t.callParts name = t.recursionParts name := by
  have hfound : ∀ e ∈ t.expressions, e.contains name = true →
      t.value? = some e ∧ e.hasCall name = true := by
    intro e he hcontains
    obtain ⟨c, hc, hreached⟩ := (Expr.contains_iff_reached name e).mp hcontains
    obtain ⟨hvalue, hsigned⟩ := h e he c hc hreached.inside
    exact ⟨hvalue, (Expr.hasCall_iff_reached name e).mpr ⟨c, hc, hsigned⟩⟩
  have hsame : ∀ e ∈ t.expressions, e.hasCall name = e.contains name := fun e he =>
    Bool.eq_iff_iff.mpr ⟨Expr.contains_of_hasCall, fun hcontains => (hfound e he hcontains).2⟩
  have hcondition : ∀ e ∈ t.expressions, t.value? = none → e.contains name = false := by
    intro e he hvalue
    by_contra hcontains
    have hsome := (hfound e he (by simpa using hcontains)).1
    rw [hvalue] at hsome
    cases hsome
  cases t with
  | assign target value | ret value =>
    simp [callParts, recursionParts, hsame value (by simp [expressions])]
  | ifThen condition body | ifElse condition body otherwise =>
    simp [callParts, recursionParts, hcondition condition (by simp [expressions]) rfl]
  | _ => rfl

/-- **Plain calls are in both lists.** -/
theorem selfCalls_eq_of_callsPlainly {body : List Stmt}
    (hrepeat : anyRepeat body = false) (h : ∀ t : Stmt, t.Inside body → t.CallsPlainly name) :
    (selfCallsFrom name 0 body).map SelfCall.path = recursionsFrom name 0 body := by
  rw [map_path_selfCallsFrom, recursionsFrom_eq]
  refine flatMap_congr fun o ho => ?_
  rw [callParts_eq (h o.stmt ((inside_iff_exists_occurrence hrepeat).mpr ⟨o, ho, rfl⟩))]

end Stmt

/-! ### Position texts -/

/-- The names of parts in the one list, for those in the other. -/
def recursionNames (name : List Char) : List Char :=
  if name = "for".toList then "for_body".toList
  else if name = "while".toList then "while_body".toList
  else name

variable {part : Part} {name : Name}

theorem recursionNames_callLabel (h : part ≠ .condition) :
    recursionNames (callLabel part).toList = (recursionLabel part).toList := by
  cases part with
  | condition => exact absurd rfl h
  | _ => rfl

theorem isPlain_callLabel : Position.IsPlain callLabel := by
  intro part
  cases part <;> decide

theorem isPlain_recursionLabel : Position.IsPlain recursionLabel := by
  intro part
  cases part <;> decide

theorem recursionLabel_injective : Function.Injective recursionLabel := by
  intro a b h
  cases a <;> cases b <;> simp_all [recursionLabel]

theorem ne_condition_of_mem_parts {s : Stmt} {inner : List Stmt}
    (h : (part, inner) ∈ s.parts) : part ≠ .condition := by
  rintro rfl
  cases s <;> simp [Stmt.parts] at h

theorem ne_condition_of_mem_callParts {s : Stmt}
    (h : part ∈ s.callParts name) : part ≠ .condition := by
  rintro rfl
  cases s <;> simp [Stmt.callParts] at h

/-- A path to a call does not go through a condition. -/
theorem ne_condition_of_mem_selfCalls {body : List Stmt} {p : Path}
    (hp : p ∈ (Stmt.selfCallsFrom name 0 body).map SelfCall.path) :
    ∀ step ∈ p, step.part ≠ .condition := by
  rw [Stmt.map_path_selfCallsFrom, mem_flatMap] at hp
  obtain ⟨o, ho, hp⟩ := hp
  obtain ⟨part, hpart, rfl⟩ := mem_map.mp hp
  obtain ⟨outer, -, hparts⟩ :=
    Stmt.lead_of_mem_occurrences isPlain_callLabel (by decide) ho
  rw [forall_mem_append, forall_mem_singleton]
  refine ⟨?_, ne_condition_of_mem_callParts hpart⟩
  -- the steps before the last one enter parts of statements, and a condition is none
  generalize o.path = path at hparts
  clear ho hp
  induction hparts with
  | nil => exact forall_mem_nil _
  | cons hstep _ ih =>
    obtain ⟨inner, hinner⟩ := hstep
    exact forall_mem_cons.mpr ⟨ne_condition_of_mem_parts hinner, ih⟩

/-- The texts of the one list, with the names of the other, are those of the paths in the
    other. -/
theorem map_rename_selfCalls (name : Name) (body : List Stmt) : (Stmt.selfCallsFrom name 0 body).map
        (fun k => Position.rename recursionNames (k.path.render callLabel))
      = ((Stmt.selfCallsFrom name 0 body).map SelfCall.path).map (Path.render recursionLabel) := by
  rw [map_map]
  refine map_congr_left fun k hk => ?_
  have hpath := ne_condition_of_mem_selfCalls (mem_map_of_mem hk)
  exact Position.rename_render isPlain_callLabel rfl fun step hstep =>
    recursionNames_callLabel (hpath step hstep)

/-- **The two lists of calls.**  For a subroutine without repeat loops, the positions that one
    analysis lists are among those that the other one lists, in the same order and each once, if
    the bodies of loops are named as in the other list.  So there are at most as many, and as many
    if all calls are plain.  The analyses of a syntax tree are those of its subroutine. -/
theorem Subroutine.selfCalls_sublist_recursions (s : Subroutine)
    (h : Stmt.anyRepeat s.body = false) : ∃ calls c, s.selfCalls = .ok calls ∧ s.classify = .ok c ∧
      (calls.map fun k => Position.rename recursionNames (k.path.render callLabel)).Sublist
        (c.recursions.map (Path.render recursionLabel)) ∧
      (calls.map fun k => k.path.render callLabel).Nodup ∧
      (c.recursions.map (Path.render recursionLabel)).Nodup ∧
      calls.length ≤ c.recursions.length ∧
      (s.CallsPlainly → calls.length = c.recursions.length) ∧
      ∀ v : Value, v.IsSubroutineTree → Subroutine.ofValue? v = some s →
        Analysis.selfCalls v = .ok calls ∧ SubroutineClass.ofData v = .ok c := by
  have hcalls : s.selfCalls = .ok (Stmt.selfCallsFrom s.name 0 s.body) := by
    rw [selfCalls, whenWalkable, h]
    rfl
  have hclass : s.classify = .ok ⟨s.name, s.parameters.map Parameter.name, .ofBody s.body,
      Stmt.recursionsFrom s.name 0 s.body⟩ := by
    rw [classify, whenWalkable, h]
    rfl
  have hpaths := Stmt.selfCalls_sublist s.name s.body
  have hnodup : ((Stmt.recursionsFrom s.name 0 s.body).map (Path.render recursionLabel)).Nodup :=
    (Stmt.nodup_recursionsFrom s.name s.body).map
      (Position.render_injective isPlain_recursionLabel recursionLabel_injective)
  have htexts := map_rename_selfCalls s.name s.body
  have hsublist := hpaths.map (Path.render recursionLabel)
  rw [← htexts] at hsublist
  refine ⟨_, _, hcalls, hclass, hsublist, ?_, hnodup, ?_, ?_, ?_⟩
  · have hrenamed := hnodup.sublist hsublist
    refine List.Nodup.of_map (Position.rename recursionNames) ?_
    rwa [List.map_map]
  · simpa using hpaths.length_le
  · intro hplain
    have heq := congrArg List.length (Stmt.selfCalls_eq_of_callsPlainly h hplain)
    simpa using heq
  · intro v hv hs
    rw [Analysis.selfCalls_eq hv hs, SubroutineClass.ofData_eq hv hs, hcalls, hclass]
    exact ⟨rfl, rfl⟩

/-- A subroutine that calls itself in a condition, below an operator and in an argument. -/
def Subroutine.probe : Subroutine where
  name := "f"
  parameters := []
  declarations := []
  body := [.ifThen (.call "f" []) [.ret .null],
    .forLoop "i" (.number (.whole 1)) (.var "n" [] none [])
      [.assign (.var "x" [] none []) (.binary "+" (.call "f" []) (.number (.whole 1)))],
    .ret (.call "g" [.call "f" []])]

/-- A subroutine that calls itself plainly. -/
def Subroutine.successor : Subroutine where
  name := "f"
  parameters := []
  declarations := []
  body := [.ret (.binary "+" (.call "f" []) (.number (.whole 1)))]

theorem Subroutine.callsPlainly_successor : successor.CallsPlainly := by
  intro t ht e he c hc hinside
  obtain rfl : t = .ret (.binary "+" (.call "f" []) (.number (.whole 1))) := by
    simpa [successor, Stmt.preorderAll, Stmt.preorder] using Stmt.mem_preorderAll_iff.mpr ht
  obtain rfl := mem_singleton.mp he
  refine ⟨rfl, ?_⟩
  cases hinside with
  | here => cases hc
  | deeper hd hinside =>
    refine .deeper hd ?_
    simp only [Expr.operands, mem_cons, not_mem_nil, or_false] at hd
    rcases hd with rfl | rfl
    · cases hinside with
      | here => exact .here
      | deeper hd _ => cases hd
    · cases hinside with
      | here => cases hc
      | deeper hd _ => cases hd

theorem Subroutine.selfCalls_sublist_recursions_probe :
    (∃ calls c, Analysis.selfCalls probe.toValue = .ok calls ∧
      SubroutineClass.ofData probe.toValue = .ok c ∧
      calls.map (fun k => Position.rename recursionNames (k.path.render callLabel))
        = ["body[1].for_body[0].assignment"] ∧
      c.recursions.map (Path.render recursionLabel)
        = ["body[0].if_condition", "body[1].for_body[0].assignment", "body[2].return"]) ∧
    ∃ calls c, successor.selfCalls = .ok calls ∧ successor.classify = .ok c ∧
      calls.length = 1 ∧ calls.length = c.recursions.length := by
  have hcall : (Expr.call "f" []).toValue.IsExprTree := .call rfl (List.forall_mem_nil _)
  have hvar : ∀ name : String, (Expr.var name [] none []).toValue.IsExprTree := fun _ =>
    .plainVar rfl
  have hsum : (Expr.binary "+" (.call "f" []) (.number (.whole 1))).toValue.IsExprTree :=
    .binary rfl hcall (.number (.whole 1))
  have htree : probe.toValue.IsSubroutineTree := by
    refine .mk rfl (List.forall_mem_nil _) (List.forall_mem_cons.mpr ⟨?_, List.forall_mem_cons.mpr
      ⟨?_, List.forall_mem_singleton.mpr (.ret ?_)⟩⟩)
    · exact .ifThen hcall (List.forall_mem_singleton.mpr (.ret .null))
    · exact .forLoop rfl (.number (.whole 1)) (hvar "n")
        (List.forall_mem_singleton.mpr (.assignment (hvar "x") hsum))
    · exact .call rfl (List.forall_mem_singleton.mpr hcall)
  obtain ⟨calls, c, hcalls, hc, -, -, -, -, -, hdata⟩ := probe.selfCalls_sublist_recursions rfl
  obtain ⟨calls', c', hcalls', hc', -, -, -, -, heq, -⟩ :=
    successor.selfCalls_sublist_recursions rfl
  obtain ⟨hdataCalls, hdataClass⟩ := hdata _ htree rfl
  refine ⟨⟨calls, c, hdataCalls, hdataClass, ?_, ?_⟩, calls', c', hcalls', hc', ?_,
    heq callsPlainly_successor⟩
  · obtain rfl := Except.ok.inj hcalls
    decide +kernel
  · obtain rfl := Except.ok.inj hc
    decide +kernel
  · obtain rfl := Except.ok.inj hcalls'
    rfl

end Ordo
