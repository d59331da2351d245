import Mathlib.Data.List.Nodup
import Ordo.Flowchart
import Ordo.Proofs.Nested

namespace Ordo

/-!
# What is drawn of statements

Statements are drawn with a counter that numbers their nodes.  Whatever is drawn takes the next
numbers in turn, and its edges join its own nodes, lead to the end, or come from the node before.

* `Flowchart.declared`, `Flowchart.edges` — the nodes and edges among the lines of a chart;
* `Flowchart.Numbered` — nodes with consecutive numbers;
* `Flowchart.Joins` — a drawing whose edges join what it declares;
* `Flowchart.joins_drawStmt`, `Flowchart.joins_drawBody` — every drawing is one.
-/

open List

/-- Comments. -/
def Stmt.isComment : Stmt → Bool
  | .comment _ => true
  | _ => false

namespace Flowchart

/-! ### Nodes and edges -/

/-- The node that a line declares. -/
def Line.declared? : Line → Option NodeId
  | .node id _ _ => some id
  | .edge _ _ _ => none

/-- The source and target of the edge that a line draws. -/
def Line.ends? : Line → Option (NodeId × Option NodeId)
  | .node _ _ _ => none
  | .edge source _ target => some (source, target)

/-- The nodes that lines declare, in order. -/
def declared (lines : List Line) : List NodeId := lines.filterMap Line.declared?

/-- The edges that lines draw, in order. -/
def edges (lines : List Line) : List (NodeId × Option NodeId) := lines.filterMap Line.ends?

section Reading

variable (id source : NodeId) (shape : Shape) (label : Label) (text : Option Label)
  (target : Option NodeId) (lines more : List Line)

@[simp] theorem declared_nil : declared [] = [] := rfl

@[simp] theorem edges_nil : edges [] = [] := rfl

@[simp] theorem declared_node :
    declared (.node id shape label :: lines) = id :: declared lines := rfl

@[simp] theorem declared_edge : declared (.edge source text target :: lines) = declared lines :=
  rfl

@[simp] theorem edges_node : edges (.node id shape label :: lines) = edges lines := rfl

@[simp] theorem edges_edge :
    edges (.edge source text target :: lines) = (source, target) :: edges lines := rfl

@[simp] theorem declared_append : declared (lines ++ more) = declared lines ++ declared more :=
  filterMap_append

@[simp] theorem edges_append : edges (lines ++ more) = edges lines ++ edges more :=
  filterMap_append

end Reading

/-! ### Numbers -/

/-- Nodes that carry the numbers after `n` up to `m`, in turn. -/
inductive Numbered : Nat → List NodeId → Nat → Prop
  | none (n : Nat) : Numbered n [] n
  | next (kind : NodeKind) {n m : Nat} {ids : List NodeId} (h : Numbered (n + 1) ids m) :
      Numbered n (.step kind (n + 1) :: ids) m

namespace Numbered

theorem single (kind : NodeKind) (n : Nat) : Numbered n [.step kind (n + 1)] (n + 1) :=
  .next kind (.none _)

variable {m n : Nat} {ids : List NodeId}

theorem append {l : Nat} {more : List NodeId} (h : Numbered n ids m)
    (hmore : Numbered m more l) : Numbered n (ids ++ more) l := by
  induction h with
  | none n => exact hmore
  | next kind h ih => exact .next kind (ih hmore)

theorem le (h : Numbered n ids m) : n ≤ m := by
  induction h with
  | none n => exact Nat.le_refl n
  | next kind h ih => omega

/-- The nodes between two counts have numbers between them. -/
theorem exists_step (h : Numbered n ids m) {id : NodeId}
    (hid : id ∈ ids) : ∃ kind i, id = .step kind i ∧ n < i ∧ i ≤ m := by
  induction h with
  | none n => simp at hid
  | @next kind n m ids h ih =>
    rcases mem_cons.mp hid with rfl | hid
    · exact ⟨kind, n + 1, rfl, Nat.lt_succ_self n, h.le⟩
    · obtain ⟨kind', i, rfl, hlow, hhigh⟩ := ih hid
      exact ⟨kind', i, rfl, by omega, hhigh⟩

end Numbered

/-- The number of a node, if it has one. -/
def NodeId.number? : NodeId → Option Nat
  | .step _ number => some number
  | _ => none

variable {m n : Nat} {ids : List NodeId} {s : Stmt}

/-- The nodes are numbered one by one, without gaps. -/
theorem Numbered.numbers (h : Numbered n ids m) :
    ids.map NodeId.number? = (range' (n + 1) (m - n)).map some := by
  induction h with
  | none n => simp
  | @next kind n m ids h ih =>
    obtain ⟨k, rfl⟩ : ∃ k, m = n + 1 + k := ⟨m - (n + 1), by have := h.le; omega⟩
    have hleft : n + 1 + k - n = k + 1 := by omega
    have hright : n + 1 + k - (n + 1) = k := by omega
    rw [hright] at ih
    rw [map_cons, ih, hleft, range'_succ, map_cons, NodeId.number?]

theorem Numbered.nodup (h : Numbered n ids m) : ids.Nodup := by
  refine List.Nodup.of_map NodeId.number? ?_
  rw [h.numbers]
  exact List.Nodup.map (fun _ _ => Option.some.inj) nodup_range'

/-! ### Edges -/

/-- Lines that are drawn after `n` nodes and a previous one: they take the numbers up to `m`, and
    their edges start at their own nodes or at the previous one, and lead to their own nodes or to
    the end. -/
structure Joins (n : Nat) (lines : List Line) (m : Nat) (previous : Option NodeId) : Prop where
  numbered : Numbered n (declared lines) m
  sources : ∀ e ∈ edges lines, e.1 ∈ declared lines ∨ previous = some e.1
  targets : ∀ e ∈ edges lines, ∀ t ∈ e.2, t ∈ declared lines ∨ t = .stop

namespace Joins

theorem nil (n : Nat) (previous : Option NodeId) : Joins n [] n previous :=
  ⟨.none n, by simp, by simp⟩

theorem single (kind : NodeKind) (n : Nat) (shape : Shape) (label : Label)
    (previous : Option NodeId) :
    Joins n [.node (.step kind (n + 1)) shape label] (n + 1) previous :=
  ⟨.single kind n, by simp, by simp⟩

variable {m n : Nat} {lines more : List Line}

theorem after (h : Joins n lines m none) (previous : Option NodeId) : Joins n lines m previous :=
  ⟨h.numbered, fun e he => .inl ((h.sources e he).resolve_right (by simp)), h.targets⟩

/-- Drawings one after the other. -/
theorem append {l : Nat} {previous between : Option NodeId}
    (h : Joins n lines m previous) (hmore : Joins m more l between)
    (hbetween : ∀ id ∈ between, id ∈ declared lines ∨ previous = some id) :
    Joins n (lines ++ more) l previous := by
  refine ⟨?_, fun e he => ?_, fun e he t ht => ?_⟩
  · rw [declared_append]
    exact h.numbered.append hmore.numbered
  · rw [declared_append, mem_append]
    rcases mem_append.mp (edges_append lines more ▸ he) with he | he
    · exact (h.sources e he).imp_left .inl
    · rcases hmore.sources e he with hsource | hsource
      · exact .inl (.inr hsource)
      · exact (hbetween e.1 hsource).imp_left .inl
  · rw [declared_append, mem_append]
    rcases mem_append.mp (edges_append lines more ▸ he) with he | he
    · exact (h.targets e he t ht).imp_left .inl
    · exact (hmore.targets e he t ht).imp_left .inr

/-- A drawing with more edges between its nodes. -/
theorem link {previous : Option NodeId} (h : Joins n lines m previous) (hnodes : declared more = [])
    (hedges : ∀ e ∈ edges more, (e.1 ∈ declared lines ∨ previous = some e.1) ∧
      ∀ t ∈ e.2, t ∈ declared lines ∨ t = .stop) : Joins n (lines ++ more) m previous := by
  have hdeclared : declared (lines ++ more) = declared lines := by
    rw [declared_append, hnodes, append_nil]
  refine ⟨hdeclared ▸ h.numbered, fun e he => ?_, fun e he => ?_⟩
  all_goals
    rw [hdeclared]
    rcases mem_append.mp (edges_append lines more ▸ he) with he | he
  · exact h.sources e he
  · exact (hedges e he).1
  · exact h.targets e he
  · exact (hedges e he).2

end Joins

variable (previous : Option NodeId) (id : NodeId)

@[simp] theorem declared_branchLines (word : String) (ends : Ends) (terminal : Bool) :
    declared (branchLines id word ends terminal) = [] := by
  unfold branchLines
  split
  · cases terminal <;> rfl
  · rfl

/-- A drawing with the edges into and out of a branch of it. -/
theorem Joins.branch {lines : List Line} {previous : Option NodeId}
    (h : Joins n lines m previous) (id : NodeId) (word : String) (ends : Ends) (terminal : Bool)
    (hid : id ∈ declared lines) (hfirst : ∀ i ∈ ends.first, i ∈ declared lines)
    (hlast : ∀ i ∈ ends.last, i ∈ declared lines) :
    Joins n (lines ++ branchLines id word ends terminal) m previous := by
  refine h.link (declared_branchLines id word ends terminal) fun e he => ?_
  unfold branchLines at he
  split at he
  · rename_i first last hf hl
    cases terminal with
    | false =>
      obtain rfl : e = (id, some first) := by simpa [Line.branch] using he
      exact ⟨.inl hid, by simpa using .inl (hfirst first hf)⟩
    | true =>
      have hcases : e = (id, some first) ∨ e = (last, some .stop) := by
        simpa [Line.branch, Line.link] using he
      rcases hcases with rfl | rfl
      · exact ⟨.inl hid, by simpa using .inl (hfirst first hf)⟩
      · exact ⟨.inl (hlast last hl), by simp⟩
  · simp at he

@[simp] theorem declared_linkFrom : declared (linkFrom previous id) = [] := by
  cases previous <;> rfl

@[simp] theorem edges_linkFrom :
    edges (linkFrom previous id) = previous.toList.map fun p => (p, some id) := by
  cases previous <;> rfl

/-! ### Drawings -/

/-- Comments are not drawn. -/
theorem drawBody_of_comments {body : List Stmt} (h : body.all Stmt.isComment = true) (n : Nat)
    (previous : Option NodeId) : drawBody n previous body = ⟨⟨none, previous⟩, [], n⟩ := by
  induction body with
  | nil => rw [drawBody]
  | cons s body ih =>
    rw [all_cons, Bool.and_eq_true] at h
    cases s <;> simp only [Stmt.isComment, Bool.false_eq_true, false_and] at h
    rw [drawBody, drawStmt]
    simp only [ih h.2, append_nil]

/-- Every statement but a comment gets a node. -/
theorem isSome_result_drawStmt (n : Nat) (s : Stmt) :
    (drawStmt n s).result.isSome = !s.isComment := by
  cases s with
  | forLoop name start stop body | whileLoop condition body =>
    rw [drawStmt]
    split <;> rfl
  | repeatLoop body condition =>
    cases body with
    | nil => rw [drawStmt]; rfl
    | cons s ss => rw [drawStmt]; rfl
  | _ => rw [drawStmt]; rfl

theorem eq_comment_of_eq_none (h : (drawStmt n s).result = none) : ∃ text, s = .comment text := by
  have hcomment : s.isComment = true := by simpa [h] using isSome_result_drawStmt n s
  cases s <;> simp [Stmt.isComment] at hcomment ⊢

theorem isComment_of_eq_none (h : (drawStmt n s).result = none) : s.isComment = true := by
  obtain ⟨text, rfl⟩ := eq_comment_of_eq_none h
  rfl

theorem isComment_of_eq_some {id : NodeId}
    (h : (drawStmt n s).result = some id) : s.isComment = false := by
  simpa [h] using isSome_result_drawStmt n s

theorem joins_drawNode (kind : NodeKind) (shape : Shape) (label : String) (n : Nat) :
    Joins n (drawNode kind shape label n).lines (drawNode kind shape label n).count none ∧
      ∀ id ∈ (drawNode kind shape label n).result,
        id ∈ declared (drawNode kind shape label n).lines :=
  ⟨.single kind n shape _ none, by simp [drawNode]⟩

mutual

/-- **The drawing of a statement** takes the next numbers, and joins its own nodes. -/
theorem joins_drawStmt (n : Nat) (s : Stmt) :
    Joins n (drawStmt n s).lines (drawStmt n s).count none ∧
      ∀ id ∈ (drawStmt n s).result, id ∈ declared (drawStmt n s).lines := by
  cases s with
  | assign target value => exact joins_drawNode ..
  | call name arguments => exact joins_drawNode ..
  | ret value => exact joins_drawNode ..
  | other v => exact joins_drawNode ..
  | comment text => exact ⟨.nil n none, by simp [drawStmt]⟩
  | ifThen condition body =>
    obtain ⟨hbody, hfirst, hlast⟩ := joins_drawBody (n + 1) none body
    simp only [reduceCtorEq, or_false] at hlast
    rw [drawStmt]
    refine ⟨((Joins.single .conditional n _ _ none).append hbody (by simp)).branch _ _ _ _
      (by simp) (fun i hi => ?_) (fun i hi => ?_), by simp⟩
    · simp [hfirst i hi]
    · simp [hlast i hi]
  | ifElse condition body otherwise =>
    obtain ⟨hbody, hfirst, hlast⟩ := joins_drawBody (n + 1) none body
    obtain ⟨hother, hfirst', hlast'⟩ :=
      joins_drawBody (drawBody (n + 1) none body).count none otherwise
    simp only [reduceCtorEq, or_false] at hlast hlast'
    rw [drawStmt]
    refine ⟨((((Joins.single .conditional n _ _ none).append hbody (by simp)).branch _ _ _ _
      (by simp) (fun i hi => ?_) (fun i hi => ?_)).append hother (by simp)).branch _ _ _ _
      (by simp) (fun i hi => ?_) (fun i hi => ?_), by simp⟩
    · simp [hfirst i hi]
    · simp [hlast i hi]
    · simp [hfirst' i hi]
    · simp [hlast' i hi]
  | forLoop name start stop body =>
    obtain ⟨hbody, hfirst, hlast⟩ := joins_drawBody (n + 1) none body
    simp only [reduceCtorEq, or_false] at hlast
    have hhead := (Joins.single .forLoop n .decision
      (.quoted (name.shown ++ " := " ++ start.fullText ++ " to " ++ stop.fullText)) none).append
        hbody (by simp)
    rw [drawStmt]
    split
    · rename_i first last hf hl
      refine ⟨?_, by simp⟩
      have hnext := hhead.append (Joins.single .increment _ .box
        (.quoted (name.shown ++ " := " ++ name.shown ++ " + 1")) none) (by simp)
      show Joins n (([_] ++ _) ++ ([_] ++ [_, _, _])) _ none
      rw [← append_assoc]
      refine hnext.link rfl ?_
      simp [Line.link, hfirst first hf, hlast last hl]
    · exact ⟨hhead, by simp⟩
  | whileLoop condition body =>
    obtain ⟨hbody, hfirst, hlast⟩ := joins_drawBody (n + 1) none body
    simp only [reduceCtorEq, or_false] at hlast
    have hhead := (Joins.single .whileLoop n .decision (.quoted condition.fullText) none).append
      hbody (by simp)
    rw [drawStmt]
    split
    · rename_i first last hf hl
      refine ⟨hhead.link rfl ?_, by simp⟩
      simp [Line.branch, Line.link, hfirst first hf, hlast last hl]
    · exact ⟨hhead, by simp⟩
  | repeatLoop body condition =>
    cases body with
    | nil => exact ⟨.single .repeatLoop n _ _ none, by simp [drawStmt]⟩
    | cons s ss =>
      obtain ⟨hbody, hfirst, hlast⟩ := joins_drawBody n none (s :: ss)
      simp only [reduceCtorEq, or_false] at hlast
      rw [drawStmt]
      refine ⟨?_, by simp⟩
      refine ((hbody.append (Joins.single .repeatLoop _ _ _ none) (by simp)).link (by simp)
        ?_).link rfl ?_
      · intro e he
        obtain ⟨p, hp, rfl⟩ : ∃ p ∈ (drawBody n none (s :: ss)).result.last,
            (p, some (NodeId.step .repeatLoop ((drawBody n none (s :: ss)).count + 1))) = e := by
          simpa using he
        simp [hlast p hp]
      · simp only [edges_edge, edges_nil, mem_singleton, forall_eq]
        exact ⟨by simp, fun t ht => by simp [hfirst t ht]⟩

/-- The same for several statements after a previous one. -/
theorem joins_drawBody (n : Nat) (previous : Option NodeId) (body : List Stmt) :
    Joins n (drawBody n previous body).lines (drawBody n previous body).count previous ∧
      (∀ id ∈ (drawBody n previous body).result.first,
        id ∈ declared (drawBody n previous body).lines) ∧
      (∀ id ∈ (drawBody n previous body).result.last,
        id ∈ declared (drawBody n previous body).lines ∨ previous = some id) := by
  cases body with
  | nil =>
    rw [drawBody]
    exact ⟨.nil n previous, by simp, fun id hid => .inr hid⟩
  | cons s ss =>
    obtain ⟨hs, hresult⟩ := joins_drawStmt n s
    rw [drawBody]
    split
    · rename_i hnone
      obtain ⟨hss, hfirst, hlast⟩ := joins_drawBody (drawStmt n s).count previous ss
      refine ⟨(hs.after previous).append hss (fun id hid => .inr hid), fun i hi => ?_,
        fun i hi => ?_⟩
      · simp [hfirst i hi]
      · exact (hlast i hi).imp_left fun hmem => by simp [hmem]
    · rename_i id hid
      obtain ⟨hss, hfirst, hlast⟩ := joins_drawBody (drawStmt n s).count (some id) ss
      have hdrawn := hresult id hid
      have hlinked := (hs.after previous).link (declared_linkFrom previous id) (by
        intro e he
        obtain ⟨p, hp, rfl⟩ : ∃ p ∈ previous, (p, some id) = e := by simpa using he
        exact ⟨.inr hp, by simp [hdrawn]⟩)
      refine ⟨hlinked.append hss ?_, ?_, fun i hi => .inl ?_⟩
      · rintro i ⟨⟩
        simp [hdrawn]
      · rintro i ⟨⟩
        simp [hdrawn]
      · rcases hlast i hi with hmem | ⟨⟨⟩⟩
        · simp [hmem]
        · simp [hdrawn]

end

/-! ### Whole bodies -/

end Flowchart

/-- Whether a statement in a whole body leads to the next one. -/
def Stmt.leadsOn : Stmt → Bool
  | .other .none => false
  | s => !s.isTerminal

/-- Whether the last statement of a whole body leads to the end. -/
def Stmt.leadsToEnd : Stmt → Bool
  | .ret _ => true
  | .other v => v.isTrue
  | s => !s.isTerminal

namespace Flowchart

variable (n : Nat) (previous : Option NodeId) (body : List Stmt) (id : NodeId) (s : Stmt)
  (next : NodeId)

@[simp] theorem declared_exitLines : declared (exitLines id s next) = [] := by
  unfold exitLines
  split <;> try rfl
  split <;> rfl

theorem edges_exitLines :
    edges (exitLines id s next) = if s.leadsOn then [(id, some next)] else [] := by
  unfold exitLines Stmt.leadsOn
  split
  · simp [Stmt.isTerminal]
  · simp [Stmt.isTerminal, Line.branch]
  · simp [Stmt.isTerminal, Line.branch]
  · simp
  · cases hterminal : s.isTerminal <;> simp_all [Line.link]

@[simp] theorem declared_endLines : declared (endLines id s) = [] := by
  unfold endLines
  split
  · rfl
  · split <;> rfl
  · simp

theorem edges_endLines :
    edges (endLines id s) = if s.leadsToEnd then [(id, some .stop)] else [] := by
  cases s
  case ret value => rfl
  case other v =>
    rw [endLines, Stmt.leadsToEnd]
    cases v.isTrue <;> rfl
  -- every other statement leads to the end as it would lead to a next one
  all_goals
    simp only [endLines, edges_exitLines]
    rfl

/-- Nothing is drawn of a body of comments only. -/
theorem isNone_first_drawBody :
    (drawBody n previous body).result.first.isNone = body.all Stmt.isComment := by
  induction body generalizing n previous with
  | nil => rw [drawBody]; rfl
  | cons s body ih =>
    rw [drawBody]
    split
    · rename_i hnone
      simp [ih, isComment_of_eq_none hnone]
    · rename_i id hid
      simp [isComment_of_eq_some hid]

/-- There is a last node if there was a previous one or something is drawn. -/
theorem isSome_last_drawBody :
    (drawBody n previous body).result.last.isSome
      = (previous.isSome || !body.all Stmt.isComment) := by
  induction body generalizing n previous with
  | nil => rw [drawBody]; simp
  | cons s body ih =>
    rw [drawBody]
    split
    · rename_i hnone
      simp [ih, isComment_of_eq_none hnone]
    · rename_i id hid
      simp [ih, isComment_of_eq_some hid]

end Flowchart

end Ordo
