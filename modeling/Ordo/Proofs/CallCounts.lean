import Ordo.Proofs.CallLists
import Ordo.Proofs.ParsedTrees

namespace Ordo

/-!
# How many calls are reported

A subroutine may call itself several times in one statement, and anywhere in its expressions.  The
analysis of its calls looks below operators only and reports each statement once.

* `Expr.nodes`, `Expr.calls`, `Stmt.calls`, `Stmt.callsIn` — all calls, with what each is given, in
  the order of the text;
* `Expr.openCalls`, `Stmt.openCalls` — the calls that the analysis looks at;
* `Stmt.reported` — what it reports of a statement: the first of these calls that has arguments;
* `Stmt.map_arguments_selfCallsFrom` — what it reports of a body;
* `Stmt.CallsSimply` — a statement with at most one call, where the analysis looks;
* `Subroutine.selfCalls_sublist_calls` — what is reported are some of the calls, and all of them
  if and only if each statement calls simply.
-/

open List

open SelfCall (report)

/-! ### Calls in expressions -/

namespace Expr

mutual

/-- An expression and those inside it, in the order of the text. -/
def nodes : Expr → List Expr
  | var name indices field fieldIndices =>
      var name indices field fieldIndices :: (nodesAll indices ++ nodesAll fieldIndices)
  | slice name indices field fieldIndices start stop =>
      slice name indices field fieldIndices start stop
        :: (nodesAll indices ++ (nodesAll fieldIndices ++ (nodes start ++ nodes stop)))
  | binary operator left right => binary operator left right :: (nodes left ++ nodes right)
  | unary operator operand => unary operator operand :: nodes operand
  | call name arguments => call name arguments :: nodesAll arguments
  | length operand => length operand :: nodes operand
  | ceiling operand => ceiling operand :: nodes operand
  | floor operand => floor operand :: nodes operand
  | e => [e]

/-- The expressions inside several ones. -/
def nodesAll : List Expr → List Expr
  | [] => []
  | e :: es => nodes e ++ nodesAll es

end

theorem nodesAll_eq_flatMap (es : List Expr) : nodesAll es = es.flatMap nodes := by
  induction es with
  | nil => rfl
  | cons e es ih => rw [nodesAll, ih, flatMap_cons]

variable (name : Name) (e : Expr)

theorem nodes_eq : e.nodes = e :: e.operands.flatMap nodes := by
  cases e <;> simp [nodes, operands, nodesAll_eq_flatMap]

/-- What a call is given. -/
def arguments : Expr → List Expr
  | call _ es => es
  | _ => []

/-- The calls of the named function in an expression, at any depth. -/
def calls (name : Name) (e : Expr) : List Expr := e.nodes.filter (isCallOf name)

theorem calls_eq :
    e.calls name = (if e.isCallOf name then [e] else []) ++ e.operands.flatMap (calls name) := by
  rw [calls, nodes_eq, filter_cons, filter_flatMap]
  split <;> rfl

/-- The calls of the named function that stand below operators only. -/
def openCalls (name : Name) : Expr → List Expr
  | call f es => if f.same name then [call f es] else []
  | binary _ left right => left.openCalls name ++ right.openCalls name
  | unary _ operand => operand.openCalls name
  | _ => []

theorem openCalls_sublist : (e.openCalls name).Sublist (e.calls name) := by
  fun_induction openCalls name e with
  | case1 f es hsame =>
    rw [calls_eq, isCallOf, if_pos hsame]
    exact sublist_append_left _ _
  | case3 operator left right ihLeft ihRight =>
    rw [calls_eq]
    simpa [operands, isCallOf] using ihLeft.append ihRight
  | case4 operator operand ih =>
    rw [calls_eq]
    simpa [operands, isCallOf] using ih
  | _ => exact nil_sublist _

theorem hasCall_eq_openCalls : e.hasCall name = !(e.openCalls name).isEmpty := by
  fun_induction openCalls name e with
  | case1 f es hsame => simpa [hasCall] using hsame
  | case2 f es hsame => simpa [hasCall] using hsame
  | case3 operator left right ihLeft ihRight =>
    rw [hasCall, ihLeft, ihRight]
    cases openCalls name left <;> rfl
  | case4 operator operand ih => rw [hasCall, ih]
  | case5 e hcall hbinary hunary => cases e <;> simp_all [hasCall]

end Expr

/-- The first list that is not empty, if there is one. -/
def firstNonempty {α : Type} (lists : List (List α)) : List α :=
  (lists.find? (!·.isEmpty)).getD []

variable {α : Type} {s : Subroutine}

theorem firstNonempty_nil : firstNonempty ([] : List (List α)) = [] := rfl

theorem firstNonempty_singleton (list : List α) : firstNonempty [list] = list := by
  cases list <;> rfl

theorem firstNonempty_append (lists others : List (List α)) : firstNonempty (lists ++ others)
      = if firstNonempty lists = [] then firstNonempty others else firstNonempty lists := by
  unfold firstNonempty
  rw [find?_append]
  cases h : lists.find? (!·.isEmpty) with
  | none => simp
  | some list =>
    have hne : list ≠ [] := by simpa using find?_some h
    simp [hne]

theorem firstNonempty_mem {lists : List (List α)} (h : lists ≠ []) :
    firstNonempty lists ∈ lists := by
  unfold firstNonempty
  cases hfind : lists.find? (!·.isEmpty) with
  | some list => exact mem_of_find?_eq_some hfind
  | none =>
    -- then all of them are empty, and one is as good as another
    obtain ⟨list, hlist⟩ := exists_mem_of_ne_nil _ h
    obtain rfl : list = [] := by simpa using find?_eq_none.mp hfind list hlist
    exact hlist

variable (found : List SelfCall) (name : Name)

/-- **The arguments that are reported** are those of the first call that has any. -/
theorem Expr.callArguments_eq (e : Expr) :
    e.callArguments name = firstNonempty ((e.openCalls name).map arguments) := by
  fun_induction openCalls name e with
  | case1 f es hsame =>
    rw [callArguments, if_pos hsame]
    exact (firstNonempty_singleton es).symm
  | case2 f es hsame => rw [callArguments, if_neg hsame, map_nil, firstNonempty_nil]
  | case3 operator left right ihLeft ihRight =>
    rw [callArguments, map_append, firstNonempty_append, ← ihLeft, ← ihRight]
    cases left.callArguments name <;> rfl
  | case4 operator operand ih => rw [callArguments, ih]
  | case5 e hcall hbinary hunary =>
    rw [map_nil, firstNonempty_nil]
    cases e <;> simp_all [callArguments]

/-! ### Calls in statements -/

namespace Stmt

/-- What a statement that calls the named subroutine gives it. -/
def ownCall (name : Name) : Stmt → List (List Expr)
  | call f es => if f.same name then [es] else []
  | _ => []

/-- The calls of the named subroutine in a statement itself and in its expressions, with what
    each is given. -/
def calls (name : Name) (t : Stmt) : List (List Expr) :=
  t.ownCall name ++ (t.expressions.flatMap (Expr.calls name)).map Expr.arguments

/-- Those of them that an analysis looks at: the statement itself, and calls below operators in
    the value that is returned or assigned. -/
def openCalls (name : Name) (t : Stmt) : List (List Expr) :=
  t.ownCall name ++ (t.value?.toList.flatMap (Expr.openCalls name)).map Expr.arguments

/-- The calls of the named subroutine in a body, by statements and in expressions at any depth. -/
def callsIn (name : Name) (body : List Stmt) : List (List Expr) :=
  (preorderAll body).flatMap (calls name)

/-- What is reported of a statement: one call at most. -/
def reported (name : Name) (t : Stmt) : List (List Expr) :=
  if t.openCalls name = [] then [] else [firstNonempty (t.openCalls name)]

variable (name : Name) (t : Stmt)

theorem value?_sublist_expressions : t.value?.toList.Sublist t.expressions := by
  cases t with
  | assign target value => exact sublist_cons_self target [value]
  | ret value => exact List.Sublist.refl _
  | _ => exact nil_sublist _

theorem openCalls_sublist : (t.openCalls name).Sublist (t.calls name) := by
  refine (List.Sublist.refl _).append (List.Sublist.map _ ?_)
  calc (t.value?.toList.flatMap (Expr.openCalls name)).Sublist
        (t.value?.toList.flatMap (Expr.calls name)) :=
          .flatMap_right _ fun e _ => e.openCalls_sublist name
    List.Sublist _ (t.expressions.flatMap (Expr.calls name)) :=
          t.value?_sublist_expressions.flatMap _

theorem reported_sublist : (t.reported name).Sublist (t.openCalls name) := by
  unfold reported
  split
  · exact nil_sublist _
  · exact singleton_sublist.mpr (firstNonempty_mem ‹_›)

/-- A statement calls the named subroutine at most once, and if so where an analysis looks. -/
def CallsSimply (name : Name) (t : Stmt) : Prop :=
  (t.calls name).length ≤ 1 ∧ t.openCalls name = t.calls name

/-- **All calls of a statement are reported** if it calls simply. -/
theorem reported_eq_calls_iff : t.reported name = t.calls name ↔ t.CallsSimply name := by
  have hreported := t.reported_sublist name
  have hopen := t.openCalls_sublist name
  have hone : (t.reported name).length ≤ 1 := by
    unfold reported
    split <;> simp
  constructor
  · intro heq
    rw [heq] at hreported hone
    exact ⟨hone, hopen.antisymm hreported⟩
  · rintro ⟨hlength, heq⟩
    rw [← heq] at hlength ⊢
    refine hreported.eq_of_length_le ?_
    unfold reported
    split <;> simp_all

end Stmt

/-! ### What is reported of a body -/

theorem Expr.map_arguments_selfCall (step : Step) (e : Expr) :
    (e.selfCall name step).map SelfCall.arguments
      = if (e.openCalls name).map arguments = [] then []
        else [firstNonempty ((e.openCalls name).map arguments)] := by
  rw [selfCall, hasCall_eq_openCalls, callArguments_eq]
  cases e.openCalls name <;> rfl

/-- How the arguments of calls are listed on a walk. -/
def argumentSurvey (name : Name) : Survey Unit (List Expr) where
  own _ _ t := t.reported name
  enter known _ := known
  below _ es := es

theorem argumentSurvey_ofOccurrence :
    (argumentSurvey name).ofOccurrence () = fun o => o.stmt.reported name := by
  funext o
  have hbelow : ∀ (path : Path) (es : List Expr),
      path.foldr (argumentSurvey name).below es = es := by
    intro path es
    induction path with
    | nil => rfl
    | cons step path ih => exact ih
  rw [Survey.ofOccurrence]
  simp only [hbelow, map_id']
  rfl

theorem makes_arguments : (argumentSurvey name).Makes fun _ index body =>
      (Stmt.selfCallsFrom name index body).map SelfCall.arguments where
  nil _ _ := rfl
  cons _ index t body := by
    have hbelow : ∀ step, SelfCall.arguments ∘ SelfCall.below step = SelfCall.arguments :=
      fun _ => rfl
    have hsame : (fun es => es) ∘ SelfCall.arguments = SelfCall.arguments := rfl
    rw [Stmt.selfCallsFrom, map_append]
    congr 1
    cases t <;> simp [Stmt.selfCalls, Expr.map_arguments_selfCall, Stmt.parts, argumentSurvey,
      Stmt.reported, Stmt.openCalls, Stmt.ownCall, Stmt.value?, hbelow, hsame]
    case call f es => cases f.same name <;> simp [firstNonempty_singleton]

namespace Stmt

/-- **What is reported of a body** is reported of its statements in turn. -/
theorem map_arguments_selfCallsFrom (name : Name) {body : List Stmt} (h : anyRepeat body = false) :
    (selfCallsFrom name 0 body).map SelfCall.arguments
      = (preorderAll body).flatMap (reported name) := by
  have hwalk := (makes_arguments name).eq_flatMap () 0 body
  rw [argumentSurvey_ofOccurrence] at hwalk
  rw [hwalk, ← map_stmt_occurrencesFrom h 0, flatMap_map]

theorem flatMap_eq_iff_of_sublist {α β : Type} {l : List α} {f g : α → List β}
    (h : ∀ a ∈ l, (f a).Sublist (g a)) : l.flatMap f = l.flatMap g ↔ ∀ a ∈ l, f a = g a := by
  refine ⟨fun heq => ?_, flatMap_congr⟩
  induction l with
  | nil => exact forall_mem_nil _
  | cons a l ih =>
    obtain ⟨ha, hl⟩ := forall_mem_cons.mp h
    have hlength := congrArg List.length heq
    simp only [flatMap_cons, length_append] at hlength
    -- neither side of the sum can make up for the other one
    have hrest := (List.Sublist.flatMap_right l hl).length_le
    have hhead := ha.eq_of_length_le (by omega)
    rw [flatMap_cons, flatMap_cons, hhead] at heq
    exact forall_mem_cons.mpr ⟨hhead, ih hl (append_cancel_left heq)⟩

end Stmt

/-! ### Reports -/

/-- The calls of a subroutine to itself, with what each is given. -/
def Subroutine.calls (s : Subroutine) : List (List Expr) := Stmt.callsIn s.name s.body

/-- A report gives the number of calls. -/
def Value.GivesCount (report : Value) (calls : List (List Expr)) : Prop :=
  report.get? "count" = some (.int calls.length)

/-- A report gives the arguments of each call, as they are shown. -/
def Value.GivesArguments (report : Value) (calls : List (List Expr)) : Prop :=
  report.get? "arguments"
    = some (.list (calls.map fun es => .list (es.map fun e => e.shortForm.toValue)))

theorem SelfCall.givesCount_report_iff (calls : List (List Expr)) :
    (report found).GivesCount calls ↔ found.length = calls.length := by
  show some (Value.int found.length) = some (.int calls.length) ↔ _
  rw [Option.some_inj, Value.int.injEq, Int.natCast_inj]

theorem SelfCall.givesArguments_report : (report found).GivesArguments (found.map arguments) := by
  rw [Value.GivesArguments, map_map]
  rfl

theorem Subroutine.selfCalls_eq_ok (h : Stmt.anyRepeat s.body = false) :
    s.selfCalls = .ok (Stmt.selfCallsFrom s.name 0 s.body) := by
  rw [selfCalls, whenWalkable, h]
  rfl

/-- The report on a syntax tree is that on its subroutine. -/
theorem Tool.compute_selfCalls {found : List SelfCall} {v : Value}
    (hfound : s.selfCalls = .ok found) (hv : v.IsSubroutineTree)
    (hs : Subroutine.ofValue? v = some s) : selfCalls.compute [v] = .ok (report found) := by
  show (ofAnalysis (Analysis.selfCalls v) >>= fun found => _) = _
  rw [Analysis.selfCalls_eq hv hs, hfound]
  rfl

/-- **What is reported of calls.**  For a subroutine without repeat loops, the report has one
    entry for each statement that calls the subroutine where the analysis looks.  So it gives some
    of the calls, in their order, and their number if and only if each statement calls simply; then
    it gives the arguments of all of them. -/
theorem Subroutine.selfCalls_sublist_calls (s : Subroutine) (h : Stmt.anyRepeat s.body = false) :
    ∃ found, s.selfCalls = .ok found ∧
      found.map SelfCall.arguments
        = (Stmt.preorderAll s.body).flatMap (Stmt.reported s.name) ∧
      (found.map SelfCall.arguments).Sublist s.calls ∧
      ((report found).GivesCount s.calls ↔
        ∀ t : Stmt, t.Inside s.body → t.CallsSimply s.name) ∧
      ((report found).GivesCount s.calls → (report found).GivesArguments s.calls) ∧
      ∀ v : Value, v.IsSubroutineTree → Subroutine.ofValue? v = some s →
        Tool.selfCalls.compute [v] = .ok (report found) := by
  have harguments := Stmt.map_arguments_selfCallsFrom s.name h
  have hsublist : ∀ t ∈ Stmt.preorderAll s.body,
      (t.reported s.name).Sublist (t.calls s.name) := fun t _ =>
    (t.reported_sublist s.name).trans (t.openCalls_sublist s.name)
  have hcalls : ((Stmt.selfCallsFrom s.name 0 s.body).map SelfCall.arguments).Sublist s.calls := by
    rw [harguments]
    exact .flatMap_right _ hsublist
  -- some of the calls, and as many, are all of them
  have hcount : (report (Stmt.selfCallsFrom s.name 0 s.body)).GivesCount s.calls ↔
      (Stmt.selfCallsFrom s.name 0 s.body).map SelfCall.arguments = s.calls := by
    rw [SelfCall.givesCount_report_iff]
    constructor
    · intro hlength
      exact hcalls.eq_of_length (by rwa [List.length_map])
    · intro heq
      rw [← heq, List.length_map]
  refine ⟨_, selfCalls_eq_ok h, harguments, hcalls, ?_, ?_, fun v =>
    Tool.compute_selfCalls (selfCalls_eq_ok h)⟩
  · rw [hcount, harguments, calls, Stmt.callsIn, Stmt.flatMap_eq_iff_of_sublist hsublist]
    simp only [Stmt.reported_eq_calls_iff, Stmt.mem_preorderAll_iff]
  · intro hgives
    rw [← hcount.mp hgives]
    exact SelfCall.givesArguments_report _

/-- A subroutine that calls itself twice in one statement. -/
def Subroutine.fibonacci : Subroutine where
  name := "f"
  parameters := [⟨"n", .simple⟩]
  declarations := []
  body := [.ret (.binary "+"
    (.call "f" [.binary "-" (.var "n" [] none []) (.number (.whole 1))])
    (.call "f" [.binary "-" (.var "n" [] none []) (.number (.whole 2))]))]

/-- One call is reported where there are two; where there is one, the report is right. -/
theorem Subroutine.selfCalls_sublist_calls_fibonacci :
    (Stmt.anyRepeat fibonacci.body = false ∧ fibonacci.calls.length = 2 ∧
      ∃ found, Tool.selfCalls.compute [fibonacci.toValue] = .ok (report found) ∧
        (report found).get? "count" = some (.int 1) ∧
        ¬(report found).GivesCount fibonacci.calls) ∧
    Stmt.anyRepeat successor.body = false ∧
      ∃ found, successor.selfCalls = .ok found ∧
        (report found).GivesCount successor.calls ∧
        (report found).GivesArguments successor.calls := by
  have hless : ∀ n : Nat, (Expr.binary "-" (.var "n" [] none [])
      (.number (.whole n))).toValue.IsExprTree := fun n =>
    .binary rfl (.plainVar rfl) (.number (.whole n))
  have hcall : ∀ n : Nat, (Expr.call "f" [.binary "-" (.var "n" [] none [])
      (.number (.whole n))]).toValue.IsExprTree := fun n =>
    .call rfl (List.forall_mem_singleton.mpr (hless n))
  have htree : fibonacci.toValue.IsSubroutineTree :=
    .mk rfl (List.forall_mem_singleton.mpr ⟨_, _, _, _, rfl⟩)
      (List.forall_mem_singleton.mpr (.ret (.binary rfl (hcall 1) (hcall 2))))
  obtain ⟨found, hfound, -, -, -, -, hdata⟩ := fibonacci.selfCalls_sublist_calls rfl
  obtain ⟨found', hfound', -, -, hcount, harguments, -⟩ := successor.selfCalls_sublist_calls rfl
  have hright := hcount.mpr (by
    intro t ht
    obtain rfl : t = .ret (.binary "+" (.call "f" []) (.number (.whole 1))) := by
      simpa [successor, Stmt.preorderAll, Stmt.preorder] using Stmt.mem_preorderAll_iff.mpr ht
    exact ⟨by decide, rfl⟩)
  refine ⟨⟨rfl, rfl, found, hdata _ htree rfl, ?_, ?_⟩, rfl, found', hfound', hright,
    harguments hright⟩
  · obtain rfl := Except.ok.inj hfound
    rfl
  · obtain rfl := Except.ok.inj hfound
    rw [SelfCall.givesCount_report_iff]
    decide

/-- In a text, two calls in one statement are counted once. -/
theorem two_calls_counted_once :
    ((programOfText "f(n) begin return f(n - 1) + f(n - 2) end begin end").toOption.any fun p =>
      p.subroutineNodes.any fun v => (Subroutine.ofValue? v).any (fun s => s.calls.length == 2) &&
        (Tool.selfCalls.compute [v]).toOption.any fun report =>
          (report.get? "count").any (·.same (.int 1))) = true := by
  decide +kernel

end Ordo
