import Ordo.Proofs.Recurrences

namespace Ordo

/-!
# What the solvers answer

The procedures on recurrences read a text and write an answer.  Reading is done for recurrences
in their usual form; writing can only fail at a number with too many digits.

* `Recurrence.written_eq_ok_iff` — which numbers are written;
* `Tree.exists_describe_iff`, `Tree.report_branching_iff` — the recurrences whose tree is written;
* `Solver.Finds` — an answer that is a success with given entries;
* `Solver.reads_alike` — all procedures read the same recurrence in a text.
-/

namespace Recurrence

open Decimal (digitLimit)

/-! ### Numbers that are written -/

theorem written_eq_ok_iff {i : Int} {t : String} :
    written i = .ok t ↔ i.natAbs < 10 ^ digitLimit ∧ t = toString i := by
  rw [written, Nat.pow_eq]
  split
  · rename_i hlong
    simp [Nat.not_lt.mpr hlong]
  · rename_i hshort
    simp [Nat.lt_of_not_le hshort, eq_comm]

theorem exists_written_iff {i : Int} : (∃ t, written i = .ok t) ↔ i.natAbs < 10 ^ digitLimit := by
  simp [written_eq_ok_iff]

variable {k n : Nat}

/-- A smaller power is shorter. -/
theorem pow_lt_of_pow_lt {i : Nat} (hik : i ≤ k) (h : n ^ k < 10 ^ digitLimit) :
    n ^ i < 10 ^ digitLimit := by
  rcases Nat.eq_zero_or_pos n with rfl | hn
  · have hone : 1 < 10 ^ digitLimit := Nat.one_lt_pow (by decide) (by decide)
    have hle : 0 ^ i ≤ 1 ^ i := Nat.pow_le_pow_left (Nat.zero_le 1) i
    rw [Nat.one_pow] at hle
    omega
  · exact Nat.lt_of_le_of_lt (Nat.pow_le_pow_right hn hik) h

theorem lt_of_pow_lt (hk : 1 ≤ k) (h : n ^ k < 10 ^ digitLimit) : n < 10 ^ digitLimit := by
  simpa using pow_lt_of_pow_lt hk h

/-- Numbers with a third of the digits have short powers. -/
theorem cube_lt_of_lt (hk : k * 3 ≤ digitLimit) (h : n < 10 ^ k) : n ^ 3 < 10 ^ digitLimit := by
  calc n ^ 3 < (10 ^ k) ^ 3 := Nat.pow_lt_pow_left h (by decide)
    _ = 10 ^ (k * 3) := (Nat.pow_mul 10 k 3).symm
    _ ≤ 10 ^ digitLimit := Nat.pow_le_pow_right (by decide) hk

/-- Numbers with one digit less have short multiples. -/
theorem triple_lt_of_lt (hk : k < digitLimit) (h : n < 10 ^ k) : n * 3 < 10 ^ digitLimit := by
  calc n * 3 < 10 ^ k * 10 := by omega
    _ = 10 ^ (k + 1) := (Nat.pow_succ 10 k).symm
    _ ≤ 10 ^ digitLimit := Nat.pow_le_pow_right (by decide) hk

/-! ### Trees -/

namespace Tree

variable {l : Level} {cost : String} {d : Divide} {v : Value}

theorem exists_size_iff : (∃ t, l.size = .ok t) ↔ l.depth = 0 ∨ l.divisor < 10 ^ digitLimit := by
  unfold Level.size
  split
  · rename_i hroot
    simp [hroot]
  · rename_i hbelow
    simp only [bind_eq_ok_iff, written_eq_ok_iff, pure_eq_ok_iff, Int.natAbs_natCast]
    simp [hbelow]

theorem exists_nodeText_iff : (∃ t, l.nodeText = .ok t) ↔ l.nodes < 10 ^ digitLimit := by
  unfold Level.nodeText
  simp only [bind_eq_ok_iff, written_eq_ok_iff, pure_eq_ok_iff, Int.natAbs_natCast]
  simp

theorem exists_workText_iff : (∃ t, l.workText cost = .ok t)
      ↔ (l.depth = 0 ∨ l.divisor < 10 ^ digitLimit) ∧ l.nodes < 10 ^ digitLimit := by
  unfold Level.workText
  simp only [exists_bind_iff, ← exists_size_iff]
  constructor
  · rintro ⟨size, hsize, nodes, hnodes, -⟩
    exact ⟨⟨size, hsize⟩, exists_written_iff.mp ⟨nodes, hnodes⟩⟩
  · rintro ⟨⟨size, hsize⟩, hshort⟩
    obtain ⟨nodes, hnodes⟩ := (exists_written_iff (i := l.nodes)).mpr hshort
    refine ⟨size, hsize, nodes, hnodes, ?_⟩
    split
    · exact ⟨_, rfl⟩
    · split <;> exact ⟨_, rfl⟩

/-- The data of a tree, apart from its levels. -/
theorem get?_of_describe (h : describe d = .ok v) :
    v.get? "success" = some (.bool true) ∧ v.get? "a" = some (.int d.branches)
      ∧ v.get? "b" = some (.int d.factor) ∧ v.get? "f_n" = some (.str d.cost)
      ∧ v.get? "total_work" = some (.str (totalWork d)) := by
  unfold describe at h
  obtain ⟨nodes, -, work, -, rfl⟩ := bind₂_pure_eq_ok_iff.mp h
  exact ⟨rfl, rfl, rfl, rfl, rfl⟩

/-- **A tree is written** if the numbers on the last level that is shown are short. -/
theorem exists_describe_iff : (∃ v, describe d = .ok v)
      ↔ d.branches ^ 3 < 10 ^ digitLimit ∧ d.factor ^ 3 < 10 ^ digitLimit := by
  have hlevels : (∃ v, describe d = .ok v) ↔
      ∀ i < 4, (i = 0 ∨ d.factor ^ i < 10 ^ digitLimit) ∧ d.branches ^ i < 10 ^ digitLimit := by
    unfold describe
    simp only [exists_bind_iff, pure_eq_ok_iff, exists_eq', and_true, exists_and_right,
      exists_mapM_iff, exists_nodeText_iff, exists_workText_iff, levels, List.forall_mem_map,
      List.mem_range, level, Nat.pow_eq]
    exact ⟨fun h => h.2, fun h => ⟨fun i hi => (h i hi).2, h⟩⟩
  rw [hlevels]
  constructor
  · intro h
    obtain ⟨hfactor, hbranches⟩ := h 3 (by decide)
    exact ⟨hbranches, hfactor.resolve_left (by decide)⟩
  · rintro ⟨hbranches, hfactor⟩ i hi
    have hle : i ≤ 3 := by omega
    exact ⟨.inr (pow_lt_of_pow_lt hle hfactor), pow_lt_of_pow_lt hle hbranches⟩

/-- **The tree of a recurrence in its usual form** is written if its numbers are short. -/
theorem report_branching_iff {a b : Nat} (s : Spacing) (hcost : IsCost cost) :
    report (s.branching a b cost) = .ok v ↔ describe ⟨a, b, cost⟩ = .ok v := by
  have hcosttrim := trim_eq_self hcost.head hcost.last
  unfold report
  simp only [bind_eq_ok_iff, read_branching s hcost, Divide.ofFit_eq_ok_iff, hcosttrim,
    String.ofList_toList]
  constructor
  · rintro ⟨_, ⟨-, -, rfl⟩, h⟩
    exact h
  · intro h
    obtain ⟨hbranches, hfactor⟩ := exists_describe_iff.mp ⟨v, h⟩
    exact ⟨_, ⟨lt_of_pow_lt (by decide) hbranches, lt_of_pow_lt (by decide) hfactor, rfl⟩, h⟩

end Tree

/-! ### Substitution -/

namespace Substitution

theorem exists_divideSteps_iff {d : Divide} : (∃ lines, divideSteps d = .ok lines)
      ↔ d.branches ^ 2 < 10 ^ digitLimit ∧ d.factor ^ 2 < 10 ^ digitLimit := by
  unfold divideSteps
  simp only [exists_bind_iff, written_eq_ok_iff, pure_eq_ok_iff, exists_eq', and_true, Nat.pow_eq,
    Int.natAbs_natCast]
  simp

theorem exists_steps_iff {k : Nat} {cost : String} :
    (∃ lines, steps k cost 4 = .ok lines) ↔ k * 3 < 10 ^ digitLimit := by
  have hmultiple : ∀ i : Nat, ((k : Int) * ((i + 1 : Nat) : Int)).natAbs = k * (i + 1) := by
    intro i
    rw [← Int.natCast_mul, Int.natAbs_natCast]
  unfold steps
  simp only [exists_bind_iff, exists_mapM_iff, written_eq_ok_iff, pure_eq_ok_iff, exists_eq',
    and_true, exists_and_right, exists_eq_right, hmultiple, Int.natAbs_natCast, List.mem_range]
  constructor
  · rintro ⟨-, hrest⟩
    exact hrest 2 (by decide)
  · intro h
    refine ⟨by omega, fun i hi => Nat.lt_of_le_of_lt (Nat.mul_le_mul_left k ?_) h⟩
    show i < 3
    exact hi

end Substitution

end Recurrence

namespace Solver

open Recurrence

/-- An answer that is a success with the given entries. -/
def Finds (answer : Outcome Value) (entries : List (String × Value)) : Prop :=
  ∃ v, answer = .ok v ∧ ∀ e ∈ ("success", .bool true) :: entries, v.get? e.1 = some e.2

theorem run_recursionTree (text : String) :
    run .recursionTree [.str text] = ofEquation (Tree.report text) := rfl

theorem run_divideSubstitution (text : String) :
    run .divideSubstitution [.str text] = ofEquation (Substitution.divideReport text) := rfl

theorem run_substitution (text : String) :
    run .substitution [.str text] = ofEquation (Substitution.report (.str text) text) := rfl

theorem ofEquation_eq_ok_iff {α : Type} {r : Except SolverError α} {v : α} :
    ofEquation r = .ok v ↔ r = .ok v :=
  mapError_eq_ok_iff

variable {a b k : Nat} {cost : String} (s : Spacing)

theorem finds_recursionTree (ha : a ^ 3 < 10 ^ Decimal.digitLimit)
    (hb : b ^ 3 < 10 ^ Decimal.digitLimit) (hcost : IsCost cost) :
    Finds (run .recursionTree [.str (s.branching a b cost)])
      [("a", .int a), ("b", .int b), ("f_n", .str cost)] := by
  obtain ⟨v, hv⟩ := (Tree.exists_describe_iff (d := ⟨a, b, cost⟩)).mpr ⟨ha, hb⟩
  obtain ⟨hsuccess, hbranches, hfactor, hcost', -⟩ := Tree.get?_of_describe hv
  refine ⟨v, ?_, ?_⟩
  · rw [run_recursionTree, ofEquation_eq_ok_iff]
    exact (Tree.report_branching_iff s hcost).mpr hv
  · simp [hsuccess, hbranches, hfactor, hcost']

theorem finds_divideSubstitution (ha : a ^ 2 < 10 ^ Decimal.digitLimit)
    (hb : b ^ 2 < 10 ^ Decimal.digitLimit) (hcost : IsCost cost) :
    Finds (run .divideSubstitution [.str (s.branching a b cost)])
      [("a", .int a), ("b", .int b), ("f_n", .str ("O(" ++ cost ++ ")"))] := by
  have hread := Substitution.readDivide_branching s (lt_of_pow_lt (by decide) ha)
    (lt_of_pow_lt (by decide) hb) hcost
  obtain ⟨lines, hlines⟩ :=
    (Substitution.exists_divideSteps_iff (d := ⟨a, b, "O(" ++ cost ++ ")"⟩)).mpr ⟨ha, hb⟩
  simp only [Finds, run_divideSubstitution, ofEquation_eq_ok_iff]
  refine ⟨_, bind_eq_ok_iff.mpr ⟨_, hread, bind_eq_ok_iff.mpr ⟨lines, hlines, rfl⟩⟩, ?_⟩
  simp [Value.get?, List.lookup_cons]

theorem finds_substitution (hk : k * 3 < 10 ^ Decimal.digitLimit) (hcost : IsCost cost) :
    Finds (run .substitution [.str (s.linear k cost)])
      [("decrement", .int k), ("cost", .str cost)] := by
  have hread := Linear.read_linear (k := k) s (by omega) hcost
  obtain ⟨lines, hlines⟩ := (Substitution.exists_steps_iff (k := k)).mpr hk
  simp only [Finds, run_substitution, ofEquation_eq_ok_iff]
  refine ⟨_, bind_eq_ok_iff.mpr ⟨_, hread, bind_eq_ok_iff.mpr ⟨lines, hlines, rfl⟩⟩, ?_⟩
  simp [Value.get?, List.lookup_cons]

/-- What is answered when a recurrence is read. -/
theorem run_readDivide {text : String} {d : Divide} (h : Divide.read text = .ok (some d)) :
    run .readDivide [.str text]
      = .ok (.dict [("a", .int d.branches), ("b", .int d.factor), ("f_n", .str d.cost)]) := by
  have hequation : ofEquation (Divide.read text) = .ok (some d) := ofEquation_eq_ok_iff.mpr h
  exact bind_eq_ok_iff.mpr ⟨_, rfl, bind_eq_ok_iff.mpr ⟨_, rfl,
    bind_eq_ok_iff.mpr ⟨_, hequation, rfl⟩⟩⟩

/-- **The procedures read recurrences alike.**  For numbers of at most a thousand digits, any cost
    that can stand in parentheses and any blanks around the signs, all of them succeed and give
    back the numbers and the cost in the text. -/
theorem reads_alike (ha : a < 10 ^ 1000) (hb : b < 10 ^ 1000) (hk : k < 10 ^ 1000)
    (hcost : IsCost cost) : run .readDivide [.str (s.branching a b cost)]
        = .ok (.dict [("a", .int a), ("b", .int b), ("f_n", .str cost)])
    ∧ Finds (run .recursionTree [.str (s.branching a b cost)])
        [("a", .int a), ("b", .int b), ("f_n", .str cost)]
    ∧ Finds (run .divideSubstitution [.str (s.branching a b cost)])
        [("a", .int a), ("b", .int b), ("f_n", .str ("O(" ++ cost ++ ")"))]
    ∧ run .readDivide [.str (s.single b cost)]
        = .ok (.dict [("a", .int 1), ("b", .int b), ("f_n", .str cost)])
    ∧ Finds (run .substitution [.str (s.linear k cost)])
        [("decrement", .int k), ("cost", .str cost)] := by
  have hcube : ∀ {n : Nat}, n < 10 ^ 1000 → n ^ 3 < 10 ^ Decimal.digitLimit :=
    fun h => cube_lt_of_lt (k := 1000) (by decide) h
  have hsquare : ∀ {n : Nat}, n < 10 ^ 1000 → n ^ 2 < 10 ^ Decimal.digitLimit :=
    fun h => pow_lt_of_pow_lt (by decide) (hcube h)
  have hshort : ∀ {n : Nat}, n < 10 ^ 1000 → n < 10 ^ Decimal.digitLimit :=
    fun h => lt_of_pow_lt (by decide) (hcube h)
  exact ⟨run_readDivide (Divide.read_branching s (hshort ha) (hshort hb) hcost),
    finds_recursionTree s (hcube ha) (hcube hb) hcost,
    finds_divideSubstitution s (hsquare ha) (hsquare hb) hcost,
    run_readDivide (Divide.read_single s (hshort hb) hcost),
    finds_substitution s (triple_lt_of_lt (k := 1000) (by decide) hk) hcost⟩

/-- Merge sort, binary search and a simple loop. -/
theorem reads_alike_textbook : run .readDivide [.str "T(n) = 2T(n/2) + O(n)"]
        = .ok (.dict [("a", .int 2), ("b", .int 2), ("f_n", .str "n")])
    ∧ Finds (run .recursionTree [.str "T(n) = 2T(n/2) + O(n)"])
        [("a", .int 2), ("b", .int 2), ("f_n", .str "n")]
    ∧ Finds (run .divideSubstitution [.str "T(n) = 2T(n/2) + O(n)"])
        [("a", .int 2), ("b", .int 2), ("f_n", .str "O(n)")]
    ∧ run .readDivide [.str "T(n) = T(n/2) + O(n)"]
        = .ok (.dict [("a", .int 1), ("b", .int 2), ("f_n", .str "n")])
    ∧ Finds (run .substitution [.str "T(n) = T(n-1) + O(n)"])
        [("decrement", .int 1), ("cost", .str "n")] := by
  have hshort : ∀ {n k : Nat}, n < 10 → k ≠ 0 → n < 10 ^ k :=
    fun h hk => Nat.lt_of_lt_of_le h (Nat.le_self_pow hk 10)
  have hall := reads_alike (a := 2) (b := 2) (k := 1) Spacing.plain
    (hshort (by decide) (by decide)) (hshort (by decide) (by decide))
    (hshort (by decide) (by decide)) isCost_linear
  rwa [show Spacing.branching _ 2 2 "n" = "T(n) = 2T(n/2) + O(n)" by decide +kernel,
    show Spacing.single _ 2 "n" = "T(n) = T(n/2) + O(n)" by decide +kernel,
    show Spacing.linear _ 1 "n" = "T(n) = T(n-1) + O(n)" by decide +kernel] at hall

end Solver

end Ordo
