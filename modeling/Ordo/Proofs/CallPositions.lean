import Ordo.Proofs.CallLists

namespace Ordo

/-!
# Positions of recursion

A classification lists the positions at which a subroutine calls itself.  A position such as
`body[2].then[0].return` leads to a statement, and its last step names the part of the statement in
which the call was found.

* `Stmt.arrive`, `Stmt.arrive_of_mem_occurrences` — following such a position;
* `Stmt.CallsAt` — a statement has a call where the last step says;
* `Stmt.makesCall`, `Stmt.makesCall_iff` — a statement has a call somewhere there;
* `Stmt.ListsCalls` — what is right about a list of positions;
* `Subroutine.recursions_listed` — the list in a classification is right.
-/

open List

/-! ### Following a position -/

namespace Stmt

open Position

/-- The statements that a position leads through, the one that it leads to, and the part of it
    that the last step names. -/
def arrive (label : PartLabel) (body : List Stmt) (text : String) :
    Option (List Stmt × Stmt × String) :=
  match (decode text).getLast? with
  | some ⟨name, none⟩ =>
      if (decode text).head?.map Leg.name = some root then
        (follow label body (decode text).dropLast).map fun r => (r.1, r.2, String.ofList name)
      else none
  | _ => none

theorem legs_concat (label : PartLabel) (name : List Char) (p : Path) (i : Nat) (part : Part) :
    legs label name none (p ++ [⟨i, part⟩])
      = legs label name (some i) p ++ [⟨(label part).toList, none⟩] := by
  induction p generalizing name with
  | nil => rfl
  | cons s p ih => rw [cons_append, legs, ih, legs, cons_append]

/-- **A position leads to the statement in a part of which it ends.** -/
theorem arrive_of_mem_occurrences {label : PartLabel} (hplain : IsPlain label)
    (hlabel : label .thenBranch ≠ label .elseBranch) {o : Occurrence} {body : List Stmt}
    (ho : o ∈ occurrencesFrom 0 body) (part : Part) :
    ∃ outer, arrive label body (Path.render label (o.path ++ [⟨o.index, part⟩]))
        = some (outer, o.stmt, label part) ∧ o.stmt.Trail body outer := by
  obtain ⟨outer, hfollow, -⟩ := follow_of_mem_occurrences hlabel ho root
  have hhead : (legs label root (some o.index) o.path
      ++ [(⟨(label part).toList, none⟩ : Leg)]).head?.map Leg.name = some root := by
    cases o.path <;> rfl
  refine ⟨outer, ?_, trail_of_follow hfollow⟩
  rw [arrive, decode_render hplain, legs_concat, getLast?_concat, dropLast_concat,
    hfollow]
  simp only [hhead, if_true, Option.map_some, String.ofList_toList]

/-! ### Statements with calls -/

/-- A statement has a call of the named subroutine where a position says that ends so: it is that
    call, or the search finds one in the value or in the condition. -/
inductive CallsAt (name : Name) : Stmt → String → Prop
  | call {f : Name} {arguments : List Expr} (h : f.same name = true) :
      CallsAt name (.call f arguments) "call"
  | ret {value : Expr} (h : value.contains name = true) : CallsAt name (.ret value) "return"
  | assign {target value : Expr} (h : value.contains name = true) :
      CallsAt name (.assign target value) "assignment"
  | ifThen {condition : Expr} {body : List Stmt} (h : condition.contains name = true) :
      CallsAt name (.ifThen condition body) "if_condition"
  | ifElse {condition : Expr} {body otherwise : List Stmt} (h : condition.contains name = true) :
      CallsAt name (.ifElse condition body otherwise) "if_condition"

/-- A statement is a call of the named subroutine, or the search finds one in an expression that
    it looks at. -/
def makesCall (name : Name) (t : Stmt) : Bool :=
  t.isCallOf name || t.searched.any (·.contains name)

variable {name : Name} {t : Stmt}

theorem makesCall_iff : t.makesCall name = true ↔ ∃ kind, t.CallsAt name kind := by
  constructor
  · intro h
    cases t <;> simp only [makesCall, isCallOf, searched, any_cons, any_nil,
      Bool.or_false, Bool.false_or, Bool.false_eq_true] at h
    case call => exact ⟨_, .call h⟩
    case ret => exact ⟨_, .ret h⟩
    case assign => exact ⟨_, .assign h⟩
    case ifThen => exact ⟨_, .ifThen h⟩
    case ifElse => exact ⟨_, .ifElse h⟩
  · rintro ⟨kind, h⟩
    cases h with
    | call h => simpa [makesCall, isCallOf, searched] using h
    | _ h => simpa [makesCall, isCallOf, searched] using h

theorem isSome_recursionPart? (name : Name) (t : Stmt) :
    (t.recursionPart? name).isSome = t.makesCall name := by
  have hpart : ∀ (found : Bool) (part : Part),
      (if found then [part] else []).head?.isSome = found := by
    intro found part
    cases found <;> rfl
  cases t <;> simp [recursionPart?, recursionParts, makesCall, isCallOf, searched, hpart]

/-- The last step of a position is that of the part in which the call is. -/
theorem callsAt_of_recursionPart? {part : Part}
    (h : t.recursionPart? name = some part) : t.CallsAt name (recursionLabel part) := by
  have hmem : part ∈ t.recursionParts name := by
    rw [recursionParts_eq, h]
    exact mem_singleton_self part
  cases t <;> simp only [recursionParts, mem_ite_nil_right, mem_singleton,
    not_mem_nil] at hmem
  case call => exact hmem.2 ▸ .call hmem.1
  case ret => exact hmem.2 ▸ .ret hmem.1
  case assign => exact hmem.2 ▸ .assign hmem.1
  case ifThen => exact hmem.2 ▸ .ifThen hmem.1
  case ifElse => exact hmem.2 ▸ .ifElse hmem.1

theorem callsAt_unique {kind kind' : String} (h : t.CallsAt name kind)
    (h' : t.CallsAt name kind') : kind = kind' := by
  cases h <;> cases h' <;> rfl

/-! ### What is right about a list -/

/-- A list of positions is right for a body.  No two are the same; each leads from the body to a
    statement with a call where the last step says; they lead to all the statements with calls, in
    the order of the text; and so each such statement is listed, with the part where its call is. -/
structure ListsCalls (name : Name) (body : List Stmt) (texts : List String) : Prop where
  nodup : texts.Nodup
  leads : ∀ text ∈ texts, ∃ outer t kind,
    arrive recursionLabel body text = some (outer, t, kind) ∧ t.Trail body outer ∧
      t.CallsAt name kind
  order : texts.map (fun text => (arrive recursionLabel body text).map (·.2.1))
    = ((preorderAll body).filter (makesCall name)).map some
  listed : ∀ t : Stmt, t.Inside body → ∀ kind, t.CallsAt name kind →
    ∃ text ∈ texts, ∃ outer, arrive recursionLabel body text = some (outer, t, kind)

end Stmt

/-- The path to the call that is found at a place, if there is one. -/
def Occurrence.recursion? (name : Name) (o : Occurrence) : Option Path :=
  (o.stmt.recursionPart? name).map fun part => o.path ++ [⟨o.index, part⟩]

theorem Occurrence.isSome_recursion? (name : Name) (o : Occurrence) :
    (o.recursion? name).isSome = o.stmt.makesCall name := by
  rw [recursion?, Option.isSome_map, Stmt.isSome_recursionPart?]

theorem Stmt.recursionsFrom_eq_filterMap (name : Name) (body : List Stmt) :
    recursionsFrom name 0 body
      = (occurrencesFrom 0 body).filterMap (Occurrence.recursion? name) := by
  rw [recursionsFrom_eq, filterMap_eq_flatMap_toList]
  refine flatMap_congr fun o _ => ?_
  rw [Occurrence.pathsTo, recursionParts_eq, Occurrence.recursion?]
  cases o.stmt.recursionPart? name <;> rfl

theorem recursionLabel_branches : recursionLabel .thenBranch ≠ recursionLabel .elseBranch := by
  decide

variable {name : Name} {body : List Stmt}

/-- The call at a place is listed as it is. -/
theorem Occurrence.recursion?_leads {o : Occurrence}
    (ho : o ∈ Stmt.occurrencesFrom 0 body) {p : Path} (hp : o.recursion? name = some p) :
    ∃ outer kind, Stmt.arrive recursionLabel body (p.render recursionLabel)
        = some (outer, o.stmt, kind) ∧ o.stmt.Trail body outer ∧ o.stmt.CallsAt name kind := by
  obtain ⟨part, hpart, rfl⟩ := Option.map_eq_some_iff.mp hp
  obtain ⟨outer, harrive, htrail⟩ :=
    Stmt.arrive_of_mem_occurrences isPlain_recursionLabel recursionLabel_branches ho part
  exact ⟨outer, _, harrive, htrail, Stmt.callsAt_of_recursionPart? hpart⟩

/-- **The list of a search is right** for a body without repeat loops. -/
theorem Stmt.listsCalls_recursionsFrom (h : anyRepeat body = false) :
    ListsCalls name body ((recursionsFrom name 0 body).map (Path.render recursionLabel)) where
  nodup := (nodup_recursionsFrom name body).map
    (Position.render_injective isPlain_recursionLabel recursionLabel_injective)
  leads text htext := by
    obtain ⟨p, hp, rfl⟩ := mem_map.mp htext
    rw [recursionsFrom_eq_filterMap, mem_filterMap] at hp
    obtain ⟨o, ho, hp⟩ := hp
    obtain ⟨outer, kind, hleads⟩ := o.recursion?_leads ho hp
    exact ⟨outer, o.stmt, kind, hleads⟩
  order := by
    rw [recursionsFrom_eq_filterMap, map_map,
      Occurrence.map_filterMap_eq (Occurrence.isSome_recursion? name) fun o ho p hp => ?_,
      ← map_stmt_occurrencesFrom h 0, filter_map, map_map]
    · rfl
    · obtain ⟨outer, kind, harrive, -⟩ := o.recursion?_leads ho hp
      rw [Function.comp_apply, harrive]
      rfl
  listed t ht kind hkind := by
    obtain ⟨o, ho, rfl⟩ := (inside_iff_exists_occurrence h).mp ht
    have hsome := (o.isSome_recursion? name).trans (makesCall_iff.mpr ⟨kind, hkind⟩)
    obtain ⟨p, hp⟩ := Option.isSome_iff_exists.mp hsome
    obtain ⟨outer, kind', harrive, -, hkind'⟩ := o.recursion?_leads ho hp
    rw [recursionsFrom_eq_filterMap]
    refine ⟨_, mem_map_of_mem (mem_filterMap.mpr ⟨o, ho, hp⟩), outer, ?_⟩
    rw [harrive, callsAt_unique hkind hkind']

/-! ### The classification -/

/-- An entry in the details of a classification. -/
def Value.detail? (report : Value) (key : String) : Option Value :=
  (report.get? "details").bind (·.get? key)

/-- **Positions of recursion.**  A subroutine without repeat loops is classified, and the details
    give the number of positions and a list of them that is right for its body.  The classification
    of a syntax tree is that of its subroutine. -/
theorem Subroutine.recursions_listed (s : Subroutine) (h : Stmt.anyRepeat s.body = false) :
    ∃ c texts, s.classify = .ok c ∧
      c.toValue.detail? "recursive_calls" = some (.int texts.length) ∧
      c.toValue.detail? "recursive_positions" = some (.list (texts.map .str)) ∧
      Stmt.ListsCalls s.name s.body texts ∧
      ∀ v : Value, v.IsSubroutineTree → Subroutine.ofValue? v = some s →
        SubroutineClass.ofData v = .ok c := by
  have hclass : s.classify = .ok ⟨s.name, s.parameters.map Parameter.name, .ofBody s.body,
      Stmt.recursionsFrom s.name 0 s.body⟩ := by
    rw [classify, whenWalkable, h]
    rfl
  refine ⟨_, _, hclass, ?_, ?_, Stmt.listsCalls_recursionsFrom h, fun v hv hs => ?_⟩
  · rw [List.length_map]
    rfl
  · rw [List.map_map]
    rfl
  · rw [SubroutineClass.ofData_eq hv hs, hclass]
    rfl

/-- A subroutine that calls itself in a condition, by a statement in a branch, in an argument
    inside a loop of the other branch, and below an operator inside another loop. -/
def Subroutine.relay : Subroutine where
  name := "f"
  parameters := []
  declarations := []
  body := [.ifElse (.call "f" []) [.call "f" []]
      [.whileLoop (.boolean true) [.ret (.call "g" [.call "f" []])]],
    .forLoop "i" (.number (.whole 1)) (.var "n" [] none [])
      [.assign (.var "x" [] none []) (.binary "+" (.call "f" []) (.number (.whole 1)))]]

theorem Subroutine.recursions_listed_relay :
    Stmt.anyRepeat relay.body = false ∧ relay.toValue.IsSubroutineTree ∧
    ∃ c texts, SubroutineClass.ofData relay.toValue = .ok c ∧
      c.toValue.detail? "recursive_calls" = some (.int 4) ∧
      c.toValue.detail? "recursive_positions" = some (.list (texts.map .str)) ∧
      Stmt.ListsCalls relay.name relay.body texts ∧
      c.recursions.map (Path.render recursionLabel)
        = ["body[0].if_condition", "body[0].then[0].call",
          "body[0].else[0].while_body[0].return", "body[1].for_body[0].assignment"] := by
  have hcall : (Expr.call "f" []).toValue.IsExprTree := .call rfl (List.forall_mem_nil _)
  have hvar : ∀ name : String, (Expr.var name [] none []).toValue.IsExprTree := fun _ =>
    .plainVar rfl
  have hsum : (Expr.binary "+" (.call "f" []) (.number (.whole 1))).toValue.IsExprTree :=
    .binary rfl hcall (.number (.whole 1))
  have htree : relay.toValue.IsSubroutineTree := by
    refine .mk rfl (List.forall_mem_nil _) (List.forall_mem_cons.mpr
      ⟨.ifElse hcall (List.forall_mem_singleton.mpr ?_) (List.forall_mem_singleton.mpr ?_),
        List.forall_mem_singleton.mpr (.forLoop rfl (.number (.whole 1)) (hvar "n")
          (List.forall_mem_singleton.mpr (.assignment (hvar "x") hsum)))⟩)
    · exact .call rfl (List.forall_mem_nil _)
    · exact .whileLoop (.boolean true) (List.forall_mem_singleton.mpr
        (.ret (.call rfl (List.forall_mem_singleton.mpr hcall))))
  obtain ⟨c, texts, hc, -, hpositions, hlists, hdata⟩ := relay.recursions_listed rfl
  refine ⟨rfl, htree, c, texts, hdata _ htree rfl, ?_, hpositions, hlists, ?_⟩
  · obtain rfl := Except.ok.inj hc
    rfl
  · obtain rfl := Except.ok.inj hc
    decide +kernel

end Ordo
