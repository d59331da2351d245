import Ordo.Agent.Toolbox

namespace Ordo

/-!
# Tools on subroutines as plain data

A language model is shown a subroutine as plain data, and it can only ask about what it was
shown.  The tools look for nodes.

* `subroutineNode`, `Tool.question` — a subroutine, and the arguments of a tool that is asked
  about it or its body;
* `Tool.run_serialized` — the tools for whole subroutines find no node in plain data, and fail;
* `Tool.run_operations_serialized` — among statements as plain data nothing is counted;
* `Stmt.totalOperations_eq_one_iff` — the bodies for which that is the right count;
* `Tool.answer_serialized` — what is answered about plain data, and when it is right.
-/

open List

open Stmt (ofValues totalOperations)

/-- A subroutine with the given fields. -/
def subroutineNode (name parameters declarations : Value) (body : List Value) : Value :=
  .node .subroutine [name, parameters, declarations, .list body]

/-- The body of a subroutine, which may be a node or plain data. -/
def bodyOf (subroutine : Value) : Value :=
  ((subroutine.field? "body").or (subroutine.get? "body")).getD .none

/-- The arguments of a tool that is asked about a subroutine or, if it is one for statements,
    about its body. -/
def Tool.question (t : Tool) (subroutine parameter : Value) : Value :=
  match t with
  | .operations => .dict [("loop_body", bodyOf subroutine)]
  | .reduction => .dict [("subroutine", subroutine), ("param_name", parameter)]
  | _ => .dict [("subroutine", subroutine)]

/-- What a tool for whole subroutines asks of one first. -/
def Tool.firstPart : Tool → String
  | .selfCalls | .reduction => "name"
  | _ => "body"

/-! ### Whole subroutines -/

section Subroutines

variable (name parameters declarations : Value) (body : List Value) (parameter : Value)

variable {t : Tool}

/-- **A tool for whole subroutines fails on plain data**, whatever the subroutine: a dictionary
    has entries and no fields. -/
theorem Tool.run_serialized (ht : t ∈ Tool.analysis) (hne : t ≠ .operations) :
    t.run (t.question (subroutineNode name parameters declarations body).serialize parameter)
      = .error (.analysis (.access (.noAttribute "dict" t.firstPart))) := by
  simp only [Tool.analysis, mem_cons, not_mem_nil, or_false] at ht
  rcases ht with rfl | rfl | rfl | rfl | rfl | rfl
  · rfl
  · rfl
  · rfl
  · rfl
  · exact absurd rfl hne
  · rfl

/-- A result of a tool for whole subroutines is a report, which is no account of a failure. -/
theorem Tool.get?_error_of_run (ht : t ∈ Tool.analysis) (hne : t ≠ .operations)
    {subroutine v : Value} (h : t.run (t.question subroutine parameter) = .ok v) :
    v.get? "error" = none := by
  have hreport : ∀ {α : Type} {x : Tool.Outcome α} {report : α → Value},
      (do return report (← x)) = Except.ok v → ∃ a, v = report a := by
    intro α x report hx
    cases x with
    | error e =>
      have hx : (Except.error e : Tool.Outcome Value) = .ok v := hx
      simp at hx
    | ok a =>
      have hx : (Except.ok (report a) : Tool.Outcome Value) = .ok v := hx
      exact ⟨a, by simpa using hx.symm⟩
  simp only [Tool.analysis, mem_cons, not_mem_nil, or_false] at ht
  rcases ht with rfl | rfl | rfl | rfl | rfl | rfl
  · obtain ⟨calls, rfl⟩ := hreport h
    rfl
  · obtain ⟨case, rfl⟩ := hreport h
    cases case <;> rfl
  · obtain ⟨reduction, rfl⟩ := hreport h
    rfl
  · obtain ⟨loops, rfl⟩ := hreport h
    rfl
  · exact absurd rfl hne
  · obtain ⟨conditionals, rfl⟩ := hreport h
    rfl

/-- What is asked about plain data is not what is asked about the subroutine itself. -/
theorem Tool.question_serialized_ne (ht : t ∈ Tool.analysis) (hne : t ≠ .operations) :
    t.question (subroutineNode name parameters declarations body).serialize parameter
      ≠ t.question (subroutineNode name parameters declarations body) parameter := by
  simp only [Tool.analysis, mem_cons, not_mem_nil, or_false] at ht
  rcases ht with rfl | rfl | rfl | rfl | rfl | rfl
  case inr.inr.inr.inr.inl => exact absurd rfl hne
  all_goals simp [Tool.question, subroutineNode, Value.serialize]

end Subroutines

/-! ### Statements -/

/-- A statement as plain data is no statement. -/
theorem Stmt.operations_serialized (v : Value) : (Stmt.ofValue v.serialize).operations = 0 := by
  cases v with
  | node k fs => cases k <;> rfl
  | list xs => rfl
  | tuple xs => rfl
  | dict es => rfl
  | _ => rfl

theorem Stmt.operations_serializedAll (vs : List Value) :
    ((ofValues (Value.serializeAll vs)).map Stmt.operations).foldr (· + ·) 0 = 0 := by
  induction vs with
  | nil => rfl
  | cons v vs ih =>
    rw [Value.serializeAll, ofValues, map_cons, foldr_cons,
      Stmt.operations_serialized, ih]

variable (body : List Value) {t : Tool} {input : Value}

theorem Tool.run_operations :
    Tool.operations.run (.dict [("loop_body", .list body)])
      = .ok (.int (totalOperations (ofValues body))) := rfl

/-- **Among statements as plain data nothing is counted**, and the least count is one. -/
theorem Tool.run_operations_serialized :
    Tool.operations.run (.dict [("loop_body", (Value.list body).serialize)]) = .ok (.int 1) := by
  have hcount : totalOperations (ofValues (Value.serializeAll body)) = 1 := by
    rw [totalOperations, Stmt.operations_serializedAll]
    rfl
  rw [Value.serialize, Tool.run_operations, hcount]
  rfl

/-- Loops. -/
def Stmt.isLoop : Stmt → Bool
  | .forLoop _ _ _ _ | .whileLoop _ _ | .repeatLoop _ _ => true
  | _ => false

/-- Assignments and calls. -/
def Stmt.isStep : Stmt → Bool
  | .assign _ _ | .call _ _ => true
  | _ => false

/-- A body counts ten for each loop and one for each assignment or call, and at least one. -/
theorem Stmt.totalOperations_eq (body : List Stmt) :
    totalOperations body = max (10 * body.countP Stmt.isLoop + body.countP Stmt.isStep) 1 := by
  have hsum : (body.map Stmt.operations).foldr (· + ·) 0
      = 10 * body.countP Stmt.isLoop + body.countP Stmt.isStep := by
    induction body with
    | nil => rfl
    | cons s body ih =>
      have hs : s.operations = 10 * s.isLoop.toNat + s.isStep.toNat := by cases s <;> rfl
      have hcount : ∀ p : Stmt → Bool, (s :: body).countP p = (p s).toNat + body.countP p := by
        intro p
        cases hp : p s <;> simp [hp, Nat.add_comm]
      rw [map_cons, foldr_cons, ih, hs, hcount, hcount]
      omega
  rw [totalOperations, hsum]

theorem Stmt.totalOperations_eq_one_iff (body : List Stmt) : totalOperations body = 1 ↔
    body.countP Stmt.isLoop = 0 ∧ body.countP Stmt.isStep ≤ 1 := by
  rw [Stmt.totalOperations_eq]
  omega

/-! ### What is answered -/

theorem Tool.answer_of_ok {v : Value} (h : t.run input = .ok v) : t.answer input = v := by
  rw [Tool.answer, h]

theorem Tool.answer_of_error {e : ToolError} (h : t.run input = .error e) : t.answer input
      = .dict [("error", .str e.message), ("tool", .str t.name), ("input", input)] := by
  rw [Tool.answer, h]

/-- **A model that is shown a subroutine as plain data is answered nothing about it.**  Asked
    about plain data, a tool for whole subroutines tells that it failed, and the one that counts
    operations counts one.  So the answer is the one about the subroutine itself only for the
    count, and only if the body has no loops and at most one assignment or call. -/
theorem Tool.answer_serialized (t : Tool) (ht : t ∈ Tool.analysis)
    (name parameters declarations : Value) (body : List Value) (parameter : Value) :
    (t.answer (t.question (subroutineNode name parameters declarations body).serialize parameter)
      = if t = .operations then .int 1
        else .dict [("error", .str ("'dict' object has no attribute '" ++ t.firstPart ++ "'")),
          ("tool", .str t.name),
          ("input", t.question (subroutineNode name parameters declarations body).serialize
            parameter)]) ∧
    (t.answer (t.question (subroutineNode name parameters declarations body).serialize parameter)
      = t.answer (t.question (subroutineNode name parameters declarations body) parameter) ↔
      t = .operations ∧ (ofValues body).countP Stmt.isLoop = 0 ∧
        (ofValues body).countP Stmt.isStep ≤ 1) := by
  by_cases hop : t = .operations
  · subst hop
    have hplain : Tool.operations.answer (Tool.operations.question
        (subroutineNode name parameters declarations body).serialize parameter) = .int 1 :=
      Tool.answer_of_ok (Tool.run_operations_serialized body)
    have hnodes : Tool.operations.answer (Tool.operations.question
        (subroutineNode name parameters declarations body) parameter)
          = .int (totalOperations (ofValues body)) :=
      Tool.answer_of_ok (Tool.run_operations body)
    simp only [hplain, hnodes, if_true, true_and, Value.int.injEq]
    rw [← Stmt.totalOperations_eq_one_iff]
    omega
  · have hplain := Tool.answer_of_error
      (Tool.run_serialized name parameters declarations body parameter ht hop)
    have hmessage : (ToolError.analysis (.access (.noAttribute "dict" t.firstPart))).message
        = "'dict' object has no attribute '" ++ t.firstPart ++ "'" := rfl
    rw [hmessage] at hplain
    refine ⟨by rw [hplain, if_neg hop], ?_⟩
    simp only [hop, false_and, iff_false]
    intro hsame
    rw [hplain] at hsame
    cases hrun : t.run (t.question (subroutineNode name parameters declarations body)
        parameter) with
    | ok v =>
      have hv := Tool.get?_error_of_run parameter ht hop hrun
      rw [Tool.answer_of_ok hrun] at hsame
      rw [← hsame] at hv
      simp [Value.get?] at hv
    | error e =>
      rw [Tool.answer_of_error hrun] at hsame
      simp only [Value.dict.injEq, List.cons.injEq, Prod.mk.injEq, true_and, and_true] at hsame
      exact Tool.question_serialized_ne name parameters declarations body parameter ht hop
        hsame.2

/-- A subroutine that calls itself does so once, and as plain data it is not seen to. -/
theorem Tool.answer_serialized_recursive : Tool.selfCalls ∈ Tool.analysis ∧
    Tool.selfCalls.answer (.dict [("subroutine", subroutineNode (.str "f") (.list []) (.list [])
        [.node .callStatement [.str "f", .list []]])])
      = SelfCall.report [⟨[⟨0, .call⟩], []⟩] ∧
    Tool.selfCalls.answer (.dict [("subroutine", (subroutineNode (.str "f") (.list []) (.list [])
        [.node .callStatement [.str "f", .list []]]).serialize)])
      ≠ SelfCall.report [⟨[⟨0, .call⟩], []⟩] :=
  ⟨by decide, rfl, fun h =>
    absurd ((Tool.answer_serialized .selfCalls (by decide) (.str "f") (.list []) (.list [])
      [.node .callStatement [.str "f", .list []]] .none).2.mp h).1 (by decide)⟩

end Ordo
