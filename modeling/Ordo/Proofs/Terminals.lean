import Ordo.Flowchart

namespace Ordo.Stmt

/-!
# What terminal statements mean

After a terminal statement nothing follows in a chart.  That is right, since no way through such a
statement comes out at its end.

* `Completes`, `CompletesAll` — whether there is a way through to the end;
* `not_completes_of_isTerminal`, `completes_of_isReached` — terminal statements have none, and
  where nothing is out of reach, all others have one;
* `terminal_never_completes` — both, for statements and bodies.
-/

mutual

/-- Whether a way through a statement comes out at its end.  A loop may be left, and a conditional
    without a second branch may do nothing. -/
def Completes : Stmt → Prop
  | .ret _ => False
  | .ifElse _ body otherwise => CompletesAll body ∨ CompletesAll otherwise
  | _ => True

/-- Whether there is a way through several statements, one after the other. -/
def CompletesAll : List Stmt → Prop
  | [] => True
  | s :: ss => Completes s ∧ CompletesAll ss

end

mutual

/-- In the branches of a conditional, no statement but the last stops what follows. -/
def IsReached : Stmt → Prop
  | .ifElse _ body otherwise => IsReachedAll body ∧ IsReachedAll otherwise
  | _ => True

/-- No statement but the last stops what follows, and so on in the last. -/
def IsReachedAll : List Stmt → Prop
  | [] => True
  | [s] => IsReached s
  | s :: t :: ss => Completes s ∧ IsReachedAll (t :: ss)

end

mutual

theorem not_completes_of_isTerminal {s : Stmt} (h : s.isTerminal = true) : ¬s.Completes := by
  cases s with
  | ret value => simp [Completes]
  | ifElse condition body otherwise =>
    rw [isTerminal, Bool.and_eq_true] at h
    rw [Completes, not_or]
    exact ⟨not_completesAll_of_endsTerminal h.1, not_completesAll_of_endsTerminal h.2⟩
  | _ => simp [isTerminal] at h

theorem not_completesAll_of_endsTerminal {body : List Stmt} (h : endsTerminal body = true) :
    ¬CompletesAll body := by
  match body with
  | [] => simp [endsTerminal] at h
  | [s] =>
    rw [endsTerminal] at h
    exact fun hway => not_completes_of_isTerminal h (by simpa [CompletesAll] using hway)
  | s :: t :: ss =>
    rw [endsTerminal] at h
    rw [CompletesAll]
    exact fun hway => not_completesAll_of_endsTerminal h hway.2

end

mutual

theorem completes_of_isReached {s : Stmt} (hs : s.IsReached) (h : s.isTerminal = false) :
    s.Completes := by
  cases s with
  | ret value => simp [isTerminal] at h
  | ifElse condition body otherwise =>
    rw [isTerminal, Bool.and_eq_false_iff] at h
    rw [IsReached] at hs
    rw [Completes]
    exact h.imp (completesAll_of_isReachedAll hs.1) (completesAll_of_isReachedAll hs.2)
  | _ => simp [Completes]

theorem completesAll_of_isReachedAll {body : List Stmt} (hs : IsReachedAll body)
    (h : endsTerminal body = false) : CompletesAll body := by
  match body with
  | [] => simp [CompletesAll]
  | [s] =>
    rw [endsTerminal] at h
    rw [IsReachedAll] at hs
    simpa [CompletesAll] using completes_of_isReached hs h
  | s :: t :: ss =>
    rw [endsTerminal] at h
    rw [IsReachedAll] at hs
    rw [CompletesAll]
    exact ⟨hs.1, completesAll_of_isReachedAll hs.2 h⟩

end

/-- **Terminal statements do not come out at their end**, and neither do bodies that end in one.
    Where nothing is out of reach, these are the only ones. -/
theorem terminal_never_completes :
    (∀ s : Stmt, (s.isTerminal = true → ¬s.Completes)
      ∧ (s.IsReached → ¬s.Completes → s.isTerminal = true))
    ∧ ∀ body : List Stmt, (endsTerminal body = true → ¬CompletesAll body)
      ∧ (IsReachedAll body → ¬CompletesAll body → endsTerminal body = true) := by
  refine ⟨fun s => ⟨not_completes_of_isTerminal, fun hs h => ?_⟩,
    fun body => ⟨not_completesAll_of_endsTerminal, fun hs h => ?_⟩⟩
  · exact Bool.of_not_eq_false fun hfalse => h (completes_of_isReached hs hfalse)
  · exact Bool.of_not_eq_false fun hfalse => h (completesAll_of_isReachedAll hs hfalse)

/-- A conditional both of whose branches end in a return, one of them in a conditional. -/
theorem terminal_never_completes_nested : ¬Completes
    (.ifElse .null [.comment "", .ret .null] [.ifElse .null [.ret .null] [.ret .null]]) :=
  (terminal_never_completes.1 _).1 (by decide)

end Ordo.Stmt
