import Ordo.Proofs.CallLists
import Ordo.Proofs.ParsedTrees

namespace Ordo

/-!
# Lists of conditionals

An analysis lists the conditionals of a subroutine with their positions.  It is the one analysis of
whole bodies that passes over repeat loops.

* `Stmt.condition?`, `Stmt.isConditional` — conditionals among statements;
* `Stmt.conditionalsFrom_eq` — the list has each place at which a conditional stands;
* `Conditional.Lists` — a list of conditionals is right, and `Conditional.lists_conditionalsFrom` —
  the list of the analysis is;
* `Value.ShowsConditionals` — the analysis of a subroutine gives such a list, and
  `conditionals_shown` — it does so for every syntax tree, given or read from a text.
-/

open List

/-! ### Conditionals at places -/

namespace Stmt

/-- The condition of a conditional. -/
def condition? : Stmt → Option Expr
  | ifThen condition _ => some condition
  | ifElse condition _ _ => some condition
  | _ => none

/-- Conditionals. -/
def isConditional (s : Stmt) : Bool := s.condition?.isSome

/-- Whether the branches of a conditional, the first and the second, make a direct call. -/
def branchCalls (name : Name) : Stmt → Bool × Bool
  | ifThen _ body => (anyDirectCall name body, false)
  | ifElse _ body otherwise => (anyDirectCall name body, anyDirectCall name otherwise)
  | _ => (false, false)

end Stmt

/-- The position of a conditional as text. -/
def Conditional.position (c : Conditional) : String := c.path.renderAt callLabel c.index

/-- The conditional that a statement with an index is. -/
def Stmt.conditional? (name : Name) (index : Nat) (s : Stmt) : Option Conditional :=
  s.condition?.map fun condition =>
    ⟨condition, [], index, (s.branchCalls name).1, (s.branchCalls name).2⟩

/-- The conditional at a place. -/
def Occurrence.conditional? (name : Name) (o : Occurrence) : Option Conditional :=
  (o.stmt.conditional? name o.index).map fun c => { c with path := o.path }

variable (name : Name) (body : List Stmt)

theorem Occurrence.isSome_conditional? (o : Occurrence) :
    (o.conditional? name).isSome = o.stmt.isConditional := by
  rw [conditional?, Stmt.conditional?, Option.isSome_map, Option.isSome_map, Stmt.isConditional]

/-! ### The list as a survey -/

/-- How conditionals are listed on a walk. -/
def conditionalSurvey (name : Name) : Survey Unit Conditional where
  own _ index s := (s.conditional? name index).toList
  enter known _ := known
  below := .below

theorem makes_conditionalsFrom :
    (conditionalSurvey name).Makes fun _ => Stmt.conditionalsFrom name where
  nil _ _ := rfl
  cons _ index s body := by
    rw [Stmt.conditionalsFrom]
    congr 1
    cases s <;> simp [Stmt.conditionals, Stmt.parts, Stmt.conditional?, Stmt.condition?,
      Stmt.branchCalls, conditionalSurvey]

theorem conditionalSurvey_below (path : Path) (c : Conditional) :
    path.foldr (conditionalSurvey name).below c = { c with path := path ++ c.path } := by
  induction path with
  | nil => rfl
  | cons step path ih =>
    rw [foldr_cons, ih]
    rfl

/-- **The list has each place at which a conditional stands.** -/
theorem Stmt.conditionalsFrom_eq : conditionalsFrom name 0 body
      = (occurrencesFrom 0 body).filterMap (Occurrence.conditional? name) := by
  rw [(makes_conditionalsFrom name).eq_flatMap (), filterMap_eq_flatMap_toList]
  refine flatMap_congr fun o _ => ?_
  show ((o.stmt.conditional? name o.index).toList).map _ = _
  rw [Occurrence.conditional?]
  cases hc : o.stmt.conditional? name o.index with
  | none => rfl
  | some c =>
    obtain ⟨condition, -, rfl⟩ := Option.map_eq_some_iff.mp hc
    simp [conditionalSurvey_below]

/-! ### What is right about a list -/

/-- A list of conditionals is right for a body.  There is one for each conditional that does not
    stand inside a repeat loop, in the order of the text; the position of each leads from the body
    to it, through no repeat loop; and no two have the same position. -/
structure Conditional.Lists (cs : List Conditional) (body : List Stmt) : Prop where
  order : cs.map (fun c => (Stmt.lead callLabel body c.position).map Prod.snd)
    = ((Stmt.openOrderAll body).filter Stmt.isConditional).map some
  leads : ∀ c ∈ cs, ∃ outer s, Stmt.lead callLabel body c.position = some (outer, s) ∧
    s.Trail body outer ∧ (∀ t ∈ outer, t.isRepeat = false) ∧ s.condition? = some c.condition
  nodup : (cs.map Conditional.position).Nodup
  listed : ∀ s : Stmt, s.isConditional = true → Stmt.Reached (fun t => !t.isRepeat) s body →
    ∃ c ∈ cs, ∃ outer, Stmt.lead callLabel body c.position = some (outer, s)

theorem callLabel_branches : callLabel .thenBranch ≠ callLabel .elseBranch := by decide

/-- The statements whose parts a position enters are no repeat loops. -/
theorem isRepeat_of_outer {path : Path} {outer : List Stmt}
    (h : List.Forall₂ (fun step s => ∃ inner, (step.part, inner) ∈ s.parts) path outer) :
    ∀ t ∈ outer, t.isRepeat = false := by
  induction h with
  | nil => exact forall_mem_nil _
  | cons hstep _ ih =>
    obtain ⟨inner, hinner⟩ := hstep
    exact forall_mem_cons.mpr ⟨Stmt.isRepeat_of_mem_parts hinner, ih⟩

/-- The conditional at a place is described as it is. -/
theorem Occurrence.conditional?_leads {name : Name} {o : Occurrence} {body : List Stmt}
    (ho : o ∈ Stmt.occurrencesFrom 0 body) {c : Conditional} (hc : o.conditional? name = some c) :
    c.position = o.path.renderAt callLabel o.index ∧
      ∃ outer, Stmt.lead callLabel body c.position = some (outer, o.stmt) ∧
        (∀ t ∈ outer, t.isRepeat = false) ∧ o.stmt.condition? = some c.condition := by
  obtain ⟨c', hc', rfl⟩ := Option.map_eq_some_iff.mp hc
  obtain ⟨condition, hcondition, rfl⟩ := Option.map_eq_some_iff.mp hc'
  obtain ⟨outer, hlead, hparts⟩ :=
    Stmt.lead_of_mem_occurrences isPlain_callLabel callLabel_branches ho
  exact ⟨rfl, outer, hlead, isRepeat_of_outer hparts, hcondition⟩

/-- **The list of the analysis is right**, whether there are repeat loops or not. -/
theorem Conditional.lists_conditionalsFrom :
    Conditional.Lists (Stmt.conditionalsFrom name 0 body) body where
  order := by
    rw [Stmt.conditionalsFrom_eq,
      Occurrence.map_filterMap_eq (Occurrence.isSome_conditional? name) fun o ho c hc => ?_,
      ← Stmt.map_stmt_eq_openOrderAll 0, filter_map, map_map]
    · rfl
    · obtain ⟨-, outer, hlead, -⟩ := o.conditional?_leads ho hc
      rw [hlead]
      rfl
  leads c hc := by
    rw [Stmt.conditionalsFrom_eq, mem_filterMap] at hc
    obtain ⟨o, ho, hc⟩ := hc
    obtain ⟨-, outer, hlead, hrepeat, hcondition⟩ := o.conditional?_leads ho hc
    exact ⟨outer, o.stmt, hlead, Stmt.trail_of_lead hlead, hrepeat, hcondition⟩
  nodup := by
    rw [Stmt.conditionalsFrom_eq, Occurrence.map_filterMap_eq
      (Occurrence.isSome_conditional? name) fun o ho c hc => (o.conditional?_leads ho hc).1]
    exact (Stmt.nodup_renderAt isPlain_callLabel callLabel_branches body).sublist
      (filter_sublist.map _)
  listed s hs hreached := by
    rw [← Stmt.mem_openOrderAll_iff, ← Stmt.map_stmt_eq_openOrderAll 0, mem_map] at hreached
    obtain ⟨o, ho, rfl⟩ := hreached
    rw [← Occurrence.isSome_conditional? name, Option.isSome_iff_exists] at hs
    obtain ⟨c, hc⟩ := hs
    obtain ⟨-, outer, hlead, -⟩ := o.conditional?_leads ho hc
    rw [Stmt.conditionalsFrom_eq]
    exact ⟨c, mem_filterMap.mpr ⟨o, ho, hc⟩, outer, hlead⟩

/-! ### The analysis of subroutines as data -/

/-- The analysis of a subroutine in data gives the right list of its conditionals, each with its
    position and its condition as it is shown. -/
def Value.ShowsConditionals (v : Value) : Prop :=
  ∃ s cs, Subroutine.ofValue? v = some s ∧
    Tool.conditionals.compute [v] = .ok (.list (cs.map Conditional.report)) ∧
    (∀ c : Conditional, c.report.get? "position" = some (.str c.position) ∧
      c.report.get? "condition" = some c.condition.shortForm.toValue) ∧
    Conditional.Lists cs s.body

theorem Value.IsSubroutineTree.showsConditionals {v : Value} (h : v.IsSubroutineTree) :
    v.ShowsConditionals := by
  obtain ⟨s, hs⟩ := h.exists_ofValue?
  refine ⟨s, s.conditionals, hs, ?_, fun _ => ⟨rfl, rfl⟩,
    Conditional.lists_conditionalsFrom s.name s.body⟩
  show (Tool.ofAnalysis (Analysis.conditionals v) >>= fun cs => _) = _
  rw [Analysis.conditionals_eq h hs]
  rfl

/-- **All conditionals are found.**  The analysis never fails on the syntax tree of a subroutine,
    with or without repeat loops, and lists each conditional outside repeat loops once, in the
    order of the text and with a position that leads to it.  The subroutines of every text that is
    accepted are such trees. -/
theorem conditionals_shown : (∀ v : Value, v.IsSubroutineTree → v.ShowsConditionals) ∧
    ∀ (text : String) (program : Value), programOfText text = .ok program →
      ∀ v ∈ program.subroutineNodes, v.ShowsConditionals :=
  ⟨fun _ h => h.showsConditionals, fun _ _ h v hv =>
    (isSubroutine_of_programOfText h v hv).isSubroutineTree.showsConditionals⟩

/-- A subroutine with conditionals inside a repeat loop, in both branches of another one, and
    inside a loop there. -/
def Subroutine.sieve : Subroutine where
  name := "f"
  parameters := []
  declarations := []
  body := [.repeatLoop [.ifThen (.var "a" [] none []) []] (.boolean true),
    .ifElse (.var "b" [] none []) [.whileLoop (.boolean true) [.ifThen (.var "c" [] none []) []]]
      [.ifThen (.var "d" [] none []) []]]

theorem conditionals_shown_sieve :
    (Subroutine.sieve.toValue.IsSubroutineTree ∧ Subroutine.sieve.toValue.ShowsConditionals ∧
      Subroutine.sieve.conditionals.map Conditional.position
        = ["body[1]", "body[1].then[0].while[0]", "body[1].else[0]"]) ∧
    ∃ program v, programOfText "f() begin repeat if (a) then x := 1 until (b) end begin end"
        = .ok program ∧ v ∈ program.subroutineNodes ∧ v.ShowsConditionals := by
  have hvar : ∀ name : String, (Expr.var name [] none []).toValue.IsExprTree := fun _ =>
    .plainVar rfl
  have hif : ∀ name : String, (Stmt.ifThen (.var name [] none []) []).toValue.IsStmtTree :=
    fun name => .ifThen (hvar name) (List.forall_mem_nil _)
  have htree : Subroutine.sieve.toValue.IsSubroutineTree := by
    refine .mk rfl (List.forall_mem_nil _)
      (List.forall_mem_cons.mpr ⟨.repeatLoop _ _, List.forall_mem_singleton.mpr ?_⟩)
    refine .ifElse (hvar "b") (List.forall_mem_singleton.mpr ?_)
      (List.forall_mem_singleton.mpr (hif "d"))
    exact .whileLoop (.boolean true) (List.forall_mem_singleton.mpr (hif "c"))
  have htext : (programOfText
      "f() begin repeat if (a) then x := 1 until (b) end begin end").toOption.any
        (fun p => !p.subroutineNodes.isEmpty) = true := by decide +kernel
  obtain ⟨program, hprogram, hnodes⟩ := exists_eq_ok_of_any htext
  obtain ⟨v, hv⟩ := List.exists_mem_of_ne_nil _ (by simpa using hnodes)
  exact ⟨⟨htree, conditionals_shown.1 _ htree, by decide⟩, program, v, hprogram, hv,
    conditionals_shown.2 _ program hprogram v hv⟩

end Ordo
