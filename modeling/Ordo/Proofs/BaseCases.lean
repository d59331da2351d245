import Ordo.Proofs.CallCounts

namespace Ordo

/-!
# What a base case is

A recursion is said to stop in the first branch of a conditional if no statement of the branch
itself makes a call.  Statements inside its conditionals and loops are not looked at.

* `Stmt.thenBranch?` — the first branch of a conditional;
* `Stmt.firstBaseCase?_eq_some` — which branch is reported;
* `Stmt.NestedIn` — the statements inside the conditionals and loops of a branch;
* `Stmt.callsIn_eq_nil_iff` — how calls can stand in a branch;
* `SelfCall.IsUnder`, `SelfCall.isUnder_iff` — calls with a position in a branch, told by the
  position texts;
* `Subroutine.baseCase_free_iff` — when the reported branch makes no calls, and when none is
  reported in it.
-/

open List

namespace Stmt

/-! ### Branches -/

/-- The first branch of a conditional. -/
def thenBranch? : Stmt → Option (List Stmt)
  | ifThen _ body => some body
  | ifElse _ body _ => some body
  | _ => none

variable {t : Stmt} {block : List Stmt} {name : Name} {index : Nat} {b : BaseCase}

theorem thenBranch?_eq_some_iff : t.thenBranch? = some block ↔ (.thenBranch, block) ∈ t.parts := by
  cases t <;> simp [thenBranch?, parts, eq_comm]

/-- The statements of a block are looked at one by one. -/
theorem anyDirectCall_eq_false_iff (name : Name) (block : List Stmt) :
    anyDirectCall name block = false ↔ ∀ u ∈ block, u.openCalls name = [] := by
  rw [anyDirectCall, any_eq_false]
  refine forall₂_congr fun u _ => ?_
  cases u <;> simp [openCalls, ownCall, value?, Expr.hasCall_eq_openCalls]

theorem baseCase?_eq_some (h : t.baseCase? name index = some b) :
    b.index = index ∧ ∃ block, t.thenBranch? = some block ∧
      ∀ u ∈ block, u.openCalls name = [] := by
  cases t <;> simp only [baseCase?, Option.ite_none_left_eq_some, Bool.not_eq_true,
    Option.some.injEq, reduceCtorEq] at h
  all_goals
    obtain ⟨hdirect, rfl⟩ := h
    exact ⟨rfl, _, rfl, (anyDirectCall_eq_false_iff name _).mp hdirect⟩

theorem baseCase?_eq_none
    (h : t.baseCase? name index = none) (hblock : t.thenBranch? = some block) :
    ∃ u ∈ block, u.openCalls name ≠ [] := by
  by_contra hnone
  have hdirect := (anyDirectCall_eq_false_iff name block).mpr (by simpa using hnone)
  cases t <;> simp_all [thenBranch?, baseCase?]

/-- **The reported branch** is the first one in which no statement itself makes a call. -/
theorem firstBaseCase?_eq_some {body : List Stmt} (h : firstBaseCase? name index body = some b) :
    ∃ i t block, b.index = index + i ∧ body[i]? = some t ∧ t.thenBranch? = some block ∧
      (∀ u ∈ block, u.openCalls name = []) ∧
      ∀ j < i, ∀ t' block', body[j]? = some t' → t'.thenBranch? = some block' →
        ∃ u ∈ block', u.openCalls name ≠ [] := by
  induction body generalizing index with
  | nil => cases h
  | cons t body ih =>
    rw [firstBaseCase?] at h
    cases hbase : t.baseCase? name index with
    | some b' =>
      rw [hbase] at h
      obtain rfl := Option.some.inj h
      obtain ⟨hindex, block, hblock, hcalls⟩ := baseCase?_eq_some hbase
      exact ⟨0, t, block, hindex, rfl, hblock, hcalls, fun j hj => absurd hj (Nat.not_lt_zero j)⟩
    | none =>
      rw [hbase] at h
      obtain ⟨i, t', block, hindex, ht', hblock, hcalls, hfirst⟩ := ih h
      refine ⟨i + 1, t', block, by omega, ht', hblock, hcalls, fun j hj u block' hu hblock' => ?_⟩
      cases j with
      | zero =>
        obtain rfl : t = u := by simpa using hu
        exact baseCase?_eq_none hbase hblock'
      | succ j => exact hfirst j (by omega) u block' hu hblock'

/-! ### Calls in a branch -/

/-- A statement stands inside one of the statements of a block. -/
def NestedIn (w : Stmt) (block : List Stmt) : Prop :=
  ∃ u ∈ block, ∃ inner ∈ u.bodies, w.Inside inner

theorem inside_iff_nestedIn {w : Stmt} : w.Inside block ↔ w ∈ block ∨ w.NestedIn block := by
  rw [Inside, reached_iff]
  constructor
  · rintro ⟨u, hu, rfl | ⟨-, inner, hinner, hw⟩⟩
    · exact .inl hu
    · exact .inr ⟨u, hu, inner, hinner, hw⟩
  · rintro (hw | ⟨u, hu, inner, hinner, hw⟩)
    · exact ⟨w, hw, .inl rfl⟩
    · exact ⟨u, hu, .inr ⟨rfl, inner, hinner, hw⟩⟩

/-- A block makes no calls if neither its statements nor those inside them do. -/
theorem callsIn_eq_nil_iff (name : Name) (block : List Stmt) : callsIn name block = [] ↔
      (∀ u ∈ block, u.calls name = []) ∧ ∀ w : Stmt, w.NestedIn block → w.calls name = [] := by
  rw [callsIn, flatMap_eq_nil_iff]
  simp only [mem_preorderAll_iff, inside_iff_nestedIn, or_imp, forall_and]

theorem openCalls_eq_nil (h : t.calls name = []) : t.openCalls name = [] :=
  sublist_nil.mp (h ▸ t.openCalls_sublist name)

theorem callParts_eq_nil_iff (name : Name) (t : Stmt) :
    t.callParts name = [] ↔ t.openCalls name = [] := by
  cases t <;> simp [callParts, openCalls, ownCall, value?, Expr.hasCall_eq_openCalls]

end Stmt

/-! ### Positions in a branch -/

namespace Position

/-- Two texts that are cut at the same sign begin alike if the first pieces are the same. -/
theorem prefix_append_cons_iff {c : Char} {a b x y : List Char} (ha : c ∉ a) (hb : c ∉ b) :
    a ++ c :: x <+: b ++ c :: y ↔ a = b ∧ x <+: y := by
  induction a generalizing b with
  | nil =>
    cases b with
    | nil => simp [cons_prefix_cons]
    | cons e b =>
      have hne : c ≠ e := by
        rintro rfl
        exact hb mem_cons_self
      simp [cons_prefix_cons, hne]
  | cons d a ih =>
    cases b with
    | nil =>
      have hne : d ≠ c := by
        rintro rfl
        exact ha mem_cons_self
      simp [cons_prefix_cons, hne]
    | cons e b =>
      rw [cons_append, cons_append, cons_prefix_cons,
        ih (fun h => ha (mem_cons_of_mem d h)) (fun h => hb (mem_cons_of_mem e h)),
        List.cons.injEq, and_assoc]

theorem toDigits_injective : Function.Injective (Nat.toDigits 10) := by
  intro i j h
  have hread := congrArg (Nat.ofDigitChars 10 · 0) h
  simpa only [Nat.ofDigitChars_ten_toDigits] using hread

end Position

/-- The position of a base case. -/
def BaseCase.position (b : BaseCase) : String := Path.render callLabel [⟨b.index, .thenBranch⟩]

/-- The position of a call. -/
def SelfCall.position (c : SelfCall) : String := c.path.render callLabel

/-- The position of a call begins with that of a base case. -/
def SelfCall.IsUnder (c : SelfCall) (b : BaseCase) : Prop :=
  b.position.toList <+: c.position.toList

variable {b : BaseCase} {name : Name}

/-- **A call is under a base case** if the path to it begins there. -/
theorem SelfCall.isUnder_iff {c : SelfCall} {step : Step} {rest : Path}
    (hpath : c.path = step :: rest) : c.IsUnder b ↔ step = ⟨b.index, .thenBranch⟩ := by
  have hclose : ∀ i, ']' ∉ Nat.toDigits 10 i := fun i hmem =>
    Position.Leg.ne_of_mem_toDigits hmem (by decide) rfl
  have htexts : c.IsUnder b ↔ b.index = step.index ∧ (callLabel .thenBranch).toList <+:
      (callLabel step.part).toList ++ rest.flatMap fun s => (s.render callLabel).toList := by
    rw [IsUnder, BaseCase.position, position, hpath, Position.toList_render,
      Position.toList_render, prefix_append_right_inj]
    simp only [flatMap_cons, flatMap_nil, append_nil, Position.toList_step,
      Position.Leg.indexChars, cons_append, append_assoc, cons_prefix_cons,
      true_and, Position.prefix_append_cons_iff (hclose _) (hclose _), nil_append,
      Position.toDigits_injective.eq_iff]
  rw [htexts]
  obtain ⟨index, part⟩ := step
  -- no other label begins as that of the first branch does
  cases part <;> simp [callLabel, cons_prefix_cons, eq_comm]

theorem ne_thenBranch_of_mem_callParts {t : Stmt} {part : Part}
    (h : part ∈ t.callParts name) : part ≠ .thenBranch := by
  rintro rfl
  cases t <;> simp [Stmt.callParts] at h

/-- **Which calls are listed under a base case**: those that an analysis looks at, in the
    statements inside the branch. -/
theorem exists_isUnder_iff {body block : List Stmt} {t : Stmt}
    (hrepeat : Stmt.anyRepeat body = false) (ht : body[b.index]? = some t)
    (hblock : t.thenBranch? = some block) : (∃ c ∈ Stmt.selfCallsFrom name 0 body, c.IsUnder b) ↔
      ∃ w : Stmt, w.Inside block ∧ w.openCalls name ≠ [] := by
  have hpart := Stmt.thenBranch?_eq_some_iff.mp hblock
  have hplain : Stmt.anyRepeat block = false :=
    (Stmt.anyRepeat_of_mem hrepeat (mem_of_getElem? ht)).2 block
      (Stmt.mem_bodies_of_mem_parts hpart)
  have hlisted : ∀ p : Path, (∃ c ∈ Stmt.selfCallsFrom name 0 body, c.path = p) ↔
      ∃ o ∈ Stmt.occurrencesFrom 0 body, p ∈ o.pathsTo (o.stmt.callParts name) := by
    intro p
    rw [← mem_flatMap, ← Stmt.map_path_selfCallsFrom, mem_map]
  constructor
  · rintro ⟨c, hc, hunder⟩
    obtain ⟨o, ho, hpath⟩ := (hlisted c.path).mp ⟨c, hc, rfl⟩
    obtain ⟨part, hcall, hpath⟩ := mem_map.mp hpath
    obtain ⟨i, s, hs, rfl | ⟨⟨into, inner⟩, hp, u, hu, rfl⟩⟩ := Stmt.mem_occurrencesFrom.mp ho
    · -- a statement of the body itself is called in a part of its own, which is no branch
      have hstep := (SelfCall.isUnder_iff hpath.symm).mp hunder
      exact absurd (congrArg Step.part hstep) (ne_thenBranch_of_mem_callParts hcall)
    · have hstep := (SelfCall.isUnder_iff hpath.symm).mp hunder
      obtain ⟨hindex, rfl⟩ := Step.mk.inj hstep
      obtain rfl : s = t := by
        rw [← hindex, Nat.zero_add, hs] at ht
        exact Option.some.inj ht
      have hinner := Stmt.thenBranch?_eq_some_iff.mpr hp
      obtain rfl : inner = block := Option.some.inj (hinner.symm.trans hblock)
      refine ⟨u.stmt, (Stmt.inside_iff_exists_occurrence hplain).mpr ⟨u, hu, rfl⟩, ?_⟩
      rw [Ne, ← Stmt.callParts_eq_nil_iff]
      exact ne_nil_of_mem hcall
  · rintro ⟨w, hw, hcalls⟩
    obtain ⟨u, hu, rfl⟩ := (Stmt.inside_iff_exists_occurrence hplain).mp hw
    rw [Ne, ← Stmt.callParts_eq_nil_iff] at hcalls
    obtain ⟨part, hcall⟩ := exists_mem_of_ne_nil _ hcalls
    have ho : u.below ⟨b.index, .thenBranch⟩ ∈ Stmt.occurrencesFrom 0 body :=
      Stmt.mem_occurrencesFrom.mpr
        ⟨b.index, t, ht, .inr ⟨_, hpart, u, hu, by rw [Nat.zero_add]⟩⟩
    obtain ⟨c, hc, hpath⟩ := (hlisted _).mpr ⟨_, ho, mem_map_of_mem hcall⟩
    exact ⟨c, hc, (SelfCall.isUnder_iff hpath).mpr rfl⟩

/-! ### The report -/

/-- **What a reported base case is.**  For a subroutine without repeat loops, the reported branch
    is the first one of a conditional in the body in which no statement itself makes a call that an
    analysis looks at.  It makes no call at all if and only if its statements hide none and those
    inside them make none, and no call is listed under it if and only if those inside them make
    none that an analysis looks at. -/
theorem Subroutine.baseCase_free_iff (s : Subroutine) (h : Stmt.anyRepeat s.body = false)
    (b : BaseCase) (hb : s.baseCase = some b) :
    ∃ t block found, s.body[b.index]? = some t ∧ t.thenBranch? = some block ∧
      s.selfCalls = .ok found ∧
      (∀ u ∈ block, u.openCalls s.name = []) ∧
      (∀ j < b.index, ∀ t' block', s.body[j]? = some t' → t'.thenBranch? = some block' →
        ∃ u ∈ block', u.openCalls s.name ≠ []) ∧
      (Stmt.callsIn s.name block = [] ↔ (∀ u ∈ block, u.calls s.name = []) ∧
        ∀ w : Stmt, w.NestedIn block → w.calls s.name = []) ∧
      ((∀ c ∈ found, ¬c.IsUnder b) ↔
        ∀ w : Stmt, w.NestedIn block → w.openCalls s.name = []) ∧
      (Stmt.callsIn s.name block = [] → ∀ c ∈ found, ¬c.IsUnder b) ∧
      ∀ v : Value, v.IsSubroutineTree → Subroutine.ofValue? v = some s →
        Tool.baseCase.compute [v] = .ok (BaseCase.report (some b)) ∧
        (BaseCase.report (some b)).get? "position" = some (.str b.position) ∧
        Tool.selfCalls.compute [v] = .ok (SelfCall.report found) ∧
        (SelfCall.report found).get? "positions"
          = some (.list (found.map fun c => .str c.position)) := by
  obtain ⟨i, t, block, hindex, ht, hblock, hdirect, hfirst⟩ := Stmt.firstBaseCase?_eq_some hb
  obtain rfl : b.index = i := by rw [hindex, Nat.zero_add]
  have hunder : (∀ c ∈ Stmt.selfCallsFrom s.name 0 s.body, ¬c.IsUnder b) ↔
      ∀ w : Stmt, w.NestedIn block → w.openCalls s.name = [] := by
    rw [← not_iff_not]
    push Not
    rw [exists_isUnder_iff h ht hblock]
    refine exists_congr fun w => and_congr_left fun hcalls => ?_
    rw [Stmt.inside_iff_nestedIn]
    exact or_iff_right fun hw => hcalls (hdirect w hw)
  have hfree := Stmt.callsIn_eq_nil_iff s.name block
  refine ⟨t, block, _, ht, hblock, selfCalls_eq_ok h, hdirect, hfirst, hfree, hunder, ?_, ?_⟩
  · intro hnone
    exact hunder.mpr fun w hw => Stmt.openCalls_eq_nil ((hfree.mp hnone).2 w hw)
  · intro v hv hs
    refine ⟨?_, rfl, Tool.compute_selfCalls (selfCalls_eq_ok h) hv hs, rfl⟩
    show (Tool.ofAnalysis (Analysis.baseCase v) >>= fun b => _) = _
    rw [Analysis.baseCase_eq hv hs, hb]
    rfl

/-- A subroutine that calls itself inside a conditional of the branch in which it seems to stop. -/
def Subroutine.descent : Subroutine where
  name := "f"
  parameters := [⟨"n", .simple⟩]
  declarations := []
  body := [.ifThen (.var "n" [] none [])
      [.ifThen (.var "n" [] none []) [.ret (.call "f" [.var "n" [] none []])]],
    .ret (.number (.whole 1))]

/-- A call is listed under the base case that is reported. -/
theorem Subroutine.baseCase_free_iff_descent : Stmt.anyRepeat descent.body = false ∧
    ∃ b found, descent.baseCase = some b ∧ b.position = "body[0].then" ∧
      Tool.baseCase.compute [descent.toValue] = .ok (BaseCase.report (some b)) ∧
      Tool.selfCalls.compute [descent.toValue] = .ok (SelfCall.report found) ∧
      ¬∀ c ∈ found, ¬c.IsUnder b := by
  have hvar : (Expr.var "n" [] none []).toValue.IsExprTree := .plainVar rfl
  have htree : descent.toValue.IsSubroutineTree := by
    refine .mk rfl (List.forall_mem_singleton.mpr ⟨_, _, _, _, rfl⟩) (List.forall_mem_cons.mpr
      ⟨.ifThen hvar (List.forall_mem_singleton.mpr ?_),
        List.forall_mem_singleton.mpr (.ret (.number (.whole 1)))⟩)
    exact .ifThen hvar (List.forall_mem_singleton.mpr
      (.ret (.call rfl (List.forall_mem_singleton.mpr hvar))))
  obtain ⟨t, block, found, ht, hblock, -, -, -, -, hunder, -, hdata⟩ :=
    descent.baseCase_free_iff rfl ⟨.var "n" [] none [], none, 0⟩ rfl
  obtain ⟨hbase, -, hcalls, -⟩ := hdata _ htree rfl
  obtain rfl := Option.some.inj ht
  obtain rfl := Option.some.inj hblock
  refine ⟨rfl, _, found, rfl, by decide, hbase, hcalls, fun hnone => ?_⟩
  have hcall := hunder.mp hnone (.ret (.call "f" [.var "n" [] none []]))
    ⟨_, List.mem_singleton_self _, _, List.mem_singleton_self _, .here (List.mem_singleton_self _)⟩
  exact absurd hcall (by decide)

/-- In a text, a base case is reported whose branch has a call in a conditional, and another one
    whose branch has a call in an argument. -/
theorem base_cases_with_calls :
    (["f(n) begin if (n) then begin if (n) then begin return f(n) end end return 1 end begin end",
      "f(n) begin if (n) then begin x := g(f(n)) end return 1 end begin end"].all fun text =>
      (programOfText text).toOption.any fun p => p.subroutineNodes.any fun v =>
        (Subroutine.ofValue? v).any (fun s =>
          s.body[0]?.any fun t => t.thenBranch?.any fun block =>
            (Stmt.callsIn s.name block).length == 1) &&
        (Tool.baseCase.compute [v]).toOption.any fun report =>
          (report.get? "position").any (·.same (.str "body[0].then"))) = true := by
  decide +kernel

end Ordo
