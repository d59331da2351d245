import Ordo.Flowchart.Data
import Ordo.Proofs.Drawing
import Ordo.Proofs.Results

namespace Ordo

/-!
# Nodes and edges of a chart

A chart declares its start, nodes numbered from one on, and its end.  Its edges join declared
nodes, but for edges that lead nowhere: a body of comments only has no first node, and the edge
to it is drawn all the same.

* `Stmt.HasHollow` — a repeat loop with such a body stands somewhere in a body;
* `Flowchart.isOpen_drawBody` — it is what draws an edge that leads nowhere;
* `Flowchart.NodeId.name_injective` — different nodes have different names;
* `Flowchart.nodes_edges_match` — what is declared, and what edges join.
-/

open List

namespace Stmt

/-- Repeat loops whose bodies are comments only. -/
def isHollow : Stmt → Bool
  | repeatLoop body _ => !body.isEmpty && body.all isComment
  | _ => false

/-- Such a loop stands in a body at any depth. -/
def HasHollow (body : List Stmt) : Prop := ∃ s : Stmt, s.isHollow = true ∧ s.Inside body

@[simp] theorem not_hasHollow_nil : ¬ HasHollow [] :=
  fun ⟨s, _, hs⟩ => not_inside_nil s hs

@[simp] theorem hasHollow_cons (s : Stmt) (body : List Stmt) : HasHollow (s :: body) ↔
      (s.isHollow = true ∨ ∃ inner ∈ s.bodies, HasHollow inner) ∨ HasHollow body :=
  exists_inside_cons (fun t => t.isHollow = true) s body

theorem hasHollow_iff (body : List Stmt) :
    HasHollow body ↔ ∃ inner condition, (repeatLoop inner condition).Inside body ∧
      inner ≠ [] ∧ ∀ s ∈ inner, s.isComment = true := by
  constructor
  · rintro ⟨s, hs, hinside⟩
    cases s <;> simp only [isHollow, Bool.false_eq_true] at hs
    exact ⟨_, _, hinside, by simpa using hs⟩
  · rintro ⟨inner, condition, hinside, hinner⟩
    exact ⟨_, by simpa [isHollow] using hinner, hinside⟩

end Stmt

namespace Flowchart

open Stmt (HasHollow)

attribute [local simp] Stmt.isHollow Stmt.bodies Line.link Line.branch

/-! ### Edges that lead nowhere -/

/-- Some edge leads nowhere. -/
def IsOpen (lines : List Line) : Prop := ∃ e ∈ edges lines, e.2 = none

section Reading

variable (id source : NodeId) (shape : Shape) (label : Label) (text : Option Label)
  (target : Option NodeId) (lines more : List Line)

@[simp] theorem not_isOpen_nil : ¬ IsOpen [] := by simp [IsOpen]

@[simp] theorem isOpen_node : IsOpen (.node id shape label :: lines) ↔ IsOpen lines := by
  simp [IsOpen]

@[simp] theorem isOpen_edge :
    IsOpen (.edge source text target :: lines) ↔ target = none ∨ IsOpen lines := by
  simp [IsOpen]

@[simp] theorem isOpen_append : IsOpen (lines ++ more) ↔ IsOpen lines ∨ IsOpen more := by
  simp [IsOpen, or_and_right, exists_or]

@[simp] theorem not_isOpen_branchLines (word : String) (ends : Ends) (terminal : Bool) :
    ¬ IsOpen (branchLines id word ends terminal) := by
  unfold branchLines
  split
  · cases terminal <;> simp
  · simp

@[simp] theorem not_isOpen_linkFrom (previous : Option NodeId) :
    ¬ IsOpen (linkFrom previous id) := by
  cases previous <;> simp [linkFrom]

end Reading

mutual

/-- An edge of a drawn statement leads nowhere if a repeat loop in it has comments only. -/
theorem isOpen_drawStmt (n : Nat) (s : Stmt) : IsOpen (drawStmt n s).lines ↔
      s.isHollow = true ∨ ∃ inner ∈ s.bodies, HasHollow inner := by
  cases s with
  | ifThen condition body =>
    simp [drawStmt, isOpen_drawBody (n + 1) none body]
  | ifElse condition body otherwise =>
    simp [drawStmt, isOpen_drawBody (n + 1) none body,
      isOpen_drawBody (drawBody (n + 1) none body).count none otherwise]
  | forLoop name start stop body =>
    have hbody := isOpen_drawBody (n + 1) none body
    rw [drawStmt]
    split <;> simp [hbody]
  | whileLoop condition body =>
    have hbody := isOpen_drawBody (n + 1) none body
    rw [drawStmt]
    split <;> simp [hbody]
  | repeatLoop body condition =>
    cases body with
    | nil => simp [drawStmt]
    | cons s ss =>
      have hbody := isOpen_drawBody n none (s :: ss)
      have hfirst : (drawBody n none (s :: ss)).result.first = none ↔
          (s :: ss).all Stmt.isComment = true := by
        rw [← isNone_first_drawBody n none, Option.isNone_iff_eq_none]
      rw [drawStmt]
      simp only [isOpen_append, hbody, isOpen_node, not_isOpen_nil, or_false, isOpen_edge, hfirst,
        not_isOpen_linkFrom, Stmt.isHollow, Stmt.bodies, isEmpty_cons, Bool.not_false,
        Bool.true_and, mem_singleton, exists_eq_left]
      exact or_comm
  | _ => simp [drawStmt, drawNode]

/-- The same for several statements. -/
theorem isOpen_drawBody (n : Nat) (previous : Option NodeId) (body : List Stmt) :
    IsOpen (drawBody n previous body).lines ↔ HasHollow body := by
  cases body with
  | nil => simp [drawBody]
  | cons s ss =>
    have hs := isOpen_drawStmt n s
    rw [drawBody, Stmt.hasHollow_cons]
    split
    · simp only [isOpen_append, hs, isOpen_drawBody (drawStmt n s).count previous ss]
    · rename_i id _
      simp only [isOpen_append, hs, not_isOpen_linkFrom, or_false,
        isOpen_drawBody (drawStmt n s).count (some id) ss]

end

/-! ### Whole bodies -/

/-- The edges by which a previous statement leads to a node. -/
def exitsFrom (previous : Option (NodeId × Stmt)) (id : NodeId) : List Line :=
  previous.elim [] fun p => exitLines p.1 p.2 id

variable {n m : Nat} {id : NodeId} {chart : Flowchart}

attribute [local simp] drawSequence NodeKind.mark endNode

theorem drawAfter_of_eq_some {s : Stmt}
    (h : (drawStmt n s).result = some id) (previous : Option (NodeId × Stmt))
    (body : List Stmt) :
    drawAfter n previous (s :: body) =
      let r := drawAfter (drawStmt n s).count (some (id, s)) body
      ⟨some id, (drawStmt n s).lines ++ exitsFrom previous id ++ r.lines, r.count⟩ := by
  rw [drawAfter, h]
  cases previous <;> rfl

variable (previous : Option (NodeId × Stmt)) (title : String) (body : List Stmt) {c : Char}

@[simp] theorem declared_exitsFrom (id : NodeId) : declared (exitsFrom previous id) = [] := by
  cases previous <;> simp [exitsFrom]

theorem eq_of_mem_edges_exitsFrom {previous : Option (NodeId × Stmt)}
    {e : NodeId × Option NodeId} (he : e ∈ edges (exitsFrom previous id)) :
    ∃ p ∈ previous, e = (p.1, some id) := by
  cases previous with
  | none => simp [exitsFrom] at he
  | some p =>
    have hmem : p.2.leadsOn = true ∧ e = (p.1, some id) := by
      simpa [exitsFrom, edges_exitLines] using he
    exact ⟨p, rfl, hmem.2⟩

@[simp] theorem not_isOpen_exitsFrom (id : NodeId) : ¬ IsOpen (exitsFrom previous id) := by
  rintro ⟨e, he, hopen⟩
  obtain ⟨p, -, rfl⟩ := eq_of_mem_edges_exitsFrom he
  simp at hopen

/-- Lines that are drawn after `n` nodes and a previous one, up to the end: they declare nodes with
    the numbers up to `m` and the end, and their edges start at those nodes or at the previous one,
    and lead to those nodes. -/
structure Closes (n : Nat) (lines : List Line) (m : Nat) (previous : Option NodeId) : Prop where
  nodes : ∃ ids, Numbered n ids m ∧ declared lines = ids ++ [.stop]
  sources : ∀ e ∈ edges lines, e.1 ∈ declared lines ∨ previous = some e.1
  targets : ∀ e ∈ edges lines, ∀ t ∈ e.2, t ∈ declared lines

theorem Closes.stop_mem {lines : List Line} {previous : Option NodeId}
    (h : Closes n lines m previous) : .stop ∈ declared lines := by
  obtain ⟨ids, -, hids⟩ := h.nodes
  simp [hids]

/-- A drawing, and what is drawn after it up to the end. -/
theorem Joins.closes {l : Nat} {lines more : List Line} {previous between : Option NodeId}
    (h : Joins n lines m previous) (hmore : Closes m more l between)
    (hbetween : ∀ id ∈ between, id ∈ declared lines ∨ previous = some id) :
    Closes n (lines ++ more) l previous := by
  refine ⟨?_, fun e he => ?_, fun e he t ht => ?_⟩
  · obtain ⟨ids, hids, hdeclared⟩ := hmore.nodes
    exact ⟨_, h.numbered.append hids, by rw [declared_append, hdeclared, append_assoc]⟩
  · rw [declared_append, mem_append]
    rcases mem_append.mp (edges_append lines more ▸ he) with he | he
    · exact (h.sources e he).imp_left .inl
    · rcases hmore.sources e he with hsource | hsource
      · exact .inl (.inr hsource)
      · exact (hbetween e.1 hsource).imp_left .inl
  · rw [declared_append, mem_append]
    rcases mem_append.mp (edges_append lines more ▸ he) with he | he
    · rcases h.targets e he t ht with hmem | rfl
      · exact .inl hmem
      · exact .inr hmore.stop_mem
    · exact .inr (hmore.targets e he t ht)

/-- The drawing of statements up to the end joins its own nodes. -/
theorem closes_drawAfter (n : Nat) (previous : Option (NodeId × Stmt)) (body : List Stmt) :
    Closes n (drawAfter n previous body).lines (drawAfter n previous body).count
        (previous.map Prod.fst) ∧
      ∀ id ∈ (drawAfter n previous body).result,
        id ∈ declared (drawAfter n previous body).lines := by
  induction body generalizing n previous with
  | nil =>
    refine ⟨⟨⟨[], .none n, ?_⟩, fun e he => .inr ?_, fun e he => ?_⟩, by simp [drawAfter]⟩
    · cases previous <;> simp [drawAfter]
    all_goals
      cases previous with
      | none => simp [drawAfter] at he
      | some p =>
        rw [drawAfter, endNode, edges_node, edges_endLines] at he
        obtain ⟨-, rfl⟩ : p.2.leadsToEnd = true ∧ e = (p.1, some .stop) := by simpa using he
        simp [drawAfter]
  | cons s body ih =>
    obtain ⟨hs, hresult⟩ := joins_drawStmt n s
    cases hd : (drawStmt n s).result with
    | none =>
      obtain ⟨hrest, hfirst⟩ := ih (drawStmt n s).count previous
      simp only [drawAfter, hd]
      refine ⟨(hs.after _).closes hrest fun id hid => .inr hid, fun id hid => ?_⟩
      simp [hfirst id hid]
    | some id =>
      obtain ⟨hrest, -⟩ := ih (drawStmt n s).count (some (id, s))
      have hdrawn := hresult id hd
      rw [drawAfter_of_eq_some hd]
      refine ⟨Joins.closes ((hs.after _).link (declared_exitsFrom previous id) ?_) hrest ?_, ?_⟩
      · intro e he
        obtain ⟨p, hp, rfl⟩ := eq_of_mem_edges_exitsFrom he
        exact ⟨.inr (by simp [Option.mem_def.mp hp]), by simp [hdrawn]⟩
      all_goals
        rintro i ⟨⟩
        simp [hdrawn]

@[simp] theorem not_isOpen_endLines (id : NodeId) (s : Stmt) : ¬ IsOpen (endLines id s) := by
  rw [IsOpen, edges_endLines]
  split <;> simp

theorem isOpen_drawAfter (n : Nat) (previous : Option (NodeId × Stmt)) (body : List Stmt) :
    IsOpen (drawAfter n previous body).lines ↔ HasHollow body := by
  induction body generalizing n previous with
  | nil => cases previous <;> simp [drawAfter]
  | cons s body ih =>
    rw [Stmt.hasHollow_cons]
    cases hd : (drawStmt n s).result with
    | none => simp only [drawAfter, hd, isOpen_append, isOpen_drawStmt, ih]
    | some id => simp [drawAfter_of_eq_some hd, isOpen_drawStmt, ih]

/-- A body of comments only has no first node. -/
theorem isNone_result_drawAfter (n : Nat) (previous : Option (NodeId × Stmt)) (body : List Stmt) :
    (drawAfter n previous body).result.isNone = body.all Stmt.isComment := by
  induction body generalizing n previous with
  | nil => rfl
  | cons s body ih =>
    rw [drawAfter]
    split
    · rename_i hnone
      simp [ih, isComment_of_eq_none hnone]
    · rename_i id hid
      simp [isComment_of_eq_some hid]

/-! ### Charts -/

/-- A chart declares its start, numbered nodes and its end. -/
theorem declared_ofBody :
    ∃ ids, Numbered 0 ids (ofBody title body).count ∧
      declared (ofBody title body).lines = .start :: ids ++ [.stop] := by
  cases body with
  | nil => exact ⟨[], .none 0, rfl⟩
  | cons s body =>
    obtain ⟨ids, hids, hdeclared⟩ := (closes_drawAfter 0 none (s :: body)).1.nodes
    refine ⟨ids, hids, ?_⟩
    simp [ofBody, hdeclared]

/-- Its edges join what it declares, or lead nowhere. -/
theorem edges_ofBody :
    ∀ e ∈ edges (ofBody title body).lines, e.1 ∈ declared (ofBody title body).lines ∧
      ∀ t ∈ e.2, t ∈ declared (ofBody title body).lines := by
  cases body with
  | nil => simp [ofBody]
  | cons s body =>
    obtain ⟨hcloses, hresult⟩ := closes_drawAfter 0 none (s :: body)
    intro e he
    have hcases : e ∈ edges (drawAfter 0 none (s :: body)).lines ∨
        e = (.start, (drawAfter 0 none (s :: body)).result) := by
      simpa [ofBody] using he
    rcases hcases with he | rfl
    · have hsource := (hcloses.sources e he).resolve_right (by simp)
      have htarget := hcloses.targets e he
      exact ⟨by simp [ofBody, hsource],
        fun t ht => by simp [ofBody, htarget t ht]⟩
    · exact ⟨by simp [ofBody], fun t ht => by simp [ofBody, hresult t ht]⟩

/-- An edge leads nowhere if there are comments only, in the body or in a repeat loop of it. -/
theorem isOpen_ofBody : IsOpen (ofBody title body).lines ↔
      (body ≠ [] ∧ body.all Stmt.isComment = true) ∨ HasHollow body := by
  cases body with
  | nil => simp [ofBody]
  | cons s body =>
    have hfirst : (drawAfter 0 none (s :: body)).result = none ↔
        (s :: body).all Stmt.isComment = true := by
      rw [← isNone_result_drawAfter 0 none, Option.isNone_iff_eq_none]
    rw [ofBody]
    simp only [drawSequence, cons_append, isOpen_node, isOpen_append, isOpen_drawAfter,
      isOpen_edge, hfirst, not_isOpen_nil, or_false, ne_eq, reduceCtorEq, not_false_eq_true,
      true_and]
    exact or_comm

/-! ### Names -/

/-- The letters of a node's name. -/
def NodeId.letters : NodeId → String
  | start => "START"
  | stop => "END"
  | step kind _ => kind.mark

/-- The name of a node is its letters and the digits of its number. -/
theorem NodeId.toList_name (id : NodeId) :
    id.name.toList = id.letters.toList ++ id.number?.elim [] (Nat.toDigits 10) := by
  cases id with
  | start => rfl
  | stop => rfl
  | step kind number =>
    rw [NodeId.name, String.toList_append]
    exact congrArg (kind.mark.toList ++ ·) Nat.toList_repr

theorem NodeKind.all_mark (kind : NodeKind) :
    kind.mark.toList.all (fun c => !c.isDigit) = true := by
  cases kind <;> decide +kernel

theorem NodeId.isDigit_of_mem_letters (hc : c ∈ id.letters.toList) : (!c.isDigit) = true := by
  have hall : id.letters.toList.all (fun c => !c.isDigit) = true := by
    cases id with
    | step kind number => exact kind.all_mark
    | _ => decide +kernel
  exact all_eq_true.mp hall c hc

theorem NodeId.isDigit_of_mem_number (hc : c ∈ id.number?.elim [] (Nat.toDigits 10)) :
    (!c.isDigit) = false := by
  cases id with
  | step kind number =>
    rw [Nat.isDigit_of_mem_toDigits (by decide) (by decide) hc, Bool.not_true]
  | _ => simp [NodeId.number?] at hc

/-- The letters can be read off the name. -/
theorem NodeId.takeWhile_name (id : NodeId) :
    id.name.toList.takeWhile (fun c => !c.isDigit) = id.letters.toList := by
  rw [toList_name, takeWhile_append_of_pos fun c hc => isDigit_of_mem_letters hc,
    append_right_eq_self]
  cases hnumber : id.number?.elim [] (Nat.toDigits 10) with
  | nil => rfl
  | cons c cs =>
    have hc := isDigit_of_mem_number (hnumber ▸ mem_cons_self : c ∈ _)
    rw [takeWhile_cons, hc]
    rfl

/-- **Different nodes have different names.** -/
theorem NodeId.name_injective : Function.Injective NodeId.name := by
  intro a b hname
  have hletters : a.letters = b.letters := by
    rw [← String.toList_inj, ← takeWhile_name, ← takeWhile_name, hname]
  have hdigits : a.number?.elim [] (Nat.toDigits 10) = b.number?.elim [] (Nat.toDigits 10) := by
    have htext := congrArg String.toList hname
    rw [toList_name, toList_name, hletters] at htext
    exact append_cancel_left htext
  cases a <;> cases b
  case step.step kind number kind' number' =>
    have hkind : kind = kind' := by
      cases kind <;> cases kind' <;> simp [letters] at hletters ⊢
    have hnumber : number = number' := by
      rw [← Nat.ofDigitChars_ten_toDigits (n := number),
        ← Nat.ofDigitChars_ten_toDigits (n := number')]
      exact congrArg _ hdigits
    rw [hkind, hnumber]
  case start.step kind _ => cases kind <;> simp [letters] at hletters
  case stop.step kind _ => cases kind <;> simp [letters] at hletters
  case step.start kind _ => cases kind <;> simp [letters] at hletters
  case step.stop kind _ => cases kind <;> simp [letters] at hletters
  all_goals simp [letters] at hletters ⊢

/-- No node has the name that stands for no node. -/
theorem NodeId.name_ne_none (id : NodeId) : id.name ≠ targetName none := by
  intro hname
  have hletters : id.letters = "None" := by
    rw [← String.toList_inj, ← takeWhile_name, hname]
    rfl
  cases id with
  | step kind number => cases kind <;> simp [letters] at hletters
  | _ => simp [letters] at hletters

/-! ### Texts -/

/-- The text of a chart is its header, and its lines, each after a line feed. -/
theorem toList_render (f : Flowchart) :
    f.render.toList = header.toList ++ f.lines.flatMap fun l => '\n' :: l.render.toList := by
  rw [render, Value.joined, String.toList_intercalate]
  generalize header = first
  induction f.lines generalizing first with
  | nil => simp
  | cons l lines ih => simpa [intercalate_cons_cons] using ih l.render

/-! ### Charts of data -/

/-- The statements of a program or a subroutine in data. -/
def bodyIn : Value → Except AccessError Value
  | .node .program [_, algorithm] => do (← algorithm.part "main").part "body"
  | .node .subroutine [_, _, _, body] => .ok body
  | v => .error (.noAttribute v.className "body")

theorem eq_ofBody_of_ofData {title : String} {body : Except AccessError Value}
    (h : ofData title body = .ok chart) :
    ∃ v, body = .ok v ∧ chart = ofBody title (Stmt.ofItems v) := by
  obtain ⟨v, hv, h⟩ := bind_eq_ok_iff.mp h
  refine ⟨v, mapError_eq_ok_iff.mp hv, ?_⟩
  dsimp only at h
  split at h
  · exact (Except.ok.inj h).symm
  · simp at h

/-- A chart in data is the chart of the statements there. -/
theorem eq_ofBody_of_ofValue {v : Value} (h : ofValue v = .ok chart) :
    ∃ body title, bodyIn v = .ok body ∧ chart = ofBody title (Stmt.ofItems body) := by
  unfold ofValue at h
  split at h
  · obtain ⟨main, hmain, h⟩ := bind_eq_ok_iff.mp h
    obtain ⟨body, hbody, rfl⟩ := eq_ofBody_of_ofData h
    exact ⟨body, _, bind_eq_ok_iff.mpr ⟨main, mapError_eq_ok_iff.mp hmain, hbody⟩, rfl⟩
  · obtain ⟨title, -, h⟩ := bind_eq_ok_iff.mp h
    obtain ⟨body, hbody, rfl⟩ := eq_ofBody_of_ofData h
    exact ⟨body, title, hbody, rfl⟩
  · simp at h

/-- The nodes other than the start and the end are numbered from one to the count of the chart. -/
theorem numbers_ofBody :
    (declared (ofBody title body).lines).filterMap NodeId.number?
      = range' 1 (ofBody title body).count := by
  obtain ⟨ids, hids, hdeclared⟩ := declared_ofBody title body
  have hnumbers : ids.filterMap NodeId.number? = range' 1 (ofBody title body).count :=
    calc ids.filterMap NodeId.number?
        = (ids.map NodeId.number?).filterMap id := by rw [filterMap_map]; rfl
      _ = range' 1 (ofBody title body).count := by rw [hids.numbers]; simp
  rw [hdeclared, cons_append, filterMap_cons_none rfl, filterMap_append, hnumbers]
  simp [NodeId.number?]

/-- **Nodes and edges match up.**  The start and the end are declared once each, and the other
    nodes carry the numbers from one to the count, each once.  All have different names.  Edges
    join declared nodes, but for those that lead nowhere; there are such edges only where comments
    are all there is, in the body or in a repeat loop at any depth of it. -/
theorem nodes_edges_match {v : Value} {chart : Flowchart} (h : ofValue v = .ok chart) :
    (declared chart.lines).count .start = 1 ∧
    (declared chart.lines).count .stop = 1 ∧
    (declared chart.lines).filterMap NodeId.number? = List.range' 1 chart.count ∧
    ((declared chart.lines).map NodeId.name).Nodup ∧
    targetName none ∉ (declared chart.lines).map NodeId.name ∧
    (∀ e ∈ edges chart.lines, e.1 ∈ declared chart.lines ∧ ∀ t ∈ e.2, t ∈ declared chart.lines) ∧
    ∃ body, bodyIn v = .ok body ∧
      ((∃ e ∈ edges chart.lines, e.2 = none) ↔
        (Stmt.ofItems body ≠ [] ∧ ∀ s ∈ Stmt.ofItems body, s.isComment = true) ∨
        ∃ inner condition, (Stmt.repeatLoop inner condition).Inside (Stmt.ofItems body) ∧
          inner ≠ [] ∧ ∀ s ∈ inner, s.isComment = true) := by
  obtain ⟨body, title, hbody, rfl⟩ := eq_ofBody_of_ofValue h
  obtain ⟨ids, hids, hdeclared⟩ := declared_ofBody title (Stmt.ofItems body)
  have hstep : ∀ id ∈ ids, id ≠ .start ∧ id ≠ .stop := by
    intro id hid
    obtain ⟨kind, number, rfl, -⟩ := hids.exists_step hid
    simp
  have hstart : .start ∉ ids := fun hmem => (hstep _ hmem).1 rfl
  have hstop : .stop ∉ ids := fun hmem => (hstep _ hmem).2 rfl
  refine ⟨?_, ?_, numbers_ofBody title _, ?_, ?_, edges_ofBody title _, body, hbody, ?_⟩
  · simp [hdeclared, List.count_eq_zero.mpr hstart]
  · simp [hdeclared, List.count_eq_zero.mpr hstop]
  · refine List.Nodup.map NodeId.name_injective ?_
    rw [hdeclared]
    simpa [List.nodup_append, hids.nodup, hstart] using fun id hid => (hstep id hid).2
  · simp only [List.mem_map, not_exists, not_and]
    exact fun id _ => id.name_ne_none
  · exact (isOpen_ofBody title _).trans (by rw [Stmt.hasHollow_iff, List.all_eq_true])

/-- In a conditional stands a loop whose body is a comment. -/
theorem nodes_edges_match_hollow :
    let hollow : Value := .node .repeatLoop [.list [.node .comment [.str "c"]], .str "x"]
    let v : Value := .node .subroutine [.str "f", .list [], .none,
      .list [.node .ifStatement [.str "x", .node .block [.list [hollow]], .none]]]
    ∃ chart, ofValue v = .ok chart ∧
      ((declared chart.lines).map NodeId.name).Nodup ∧ ∃ e ∈ edges chart.lines, e.2 = none := by
  intro hollow v
  have h : ofValue v = .ok _ := rfl
  obtain ⟨-, -, -, hnames, -, -, body, hbody, hopen⟩ := nodes_edges_match h
  obtain rfl := Except.ok.inj hbody
  exact ⟨_, h, hnames, hopen.mpr (.inr ⟨[.comment "c"], _,
    .deeper (List.mem_singleton.mpr rfl) rfl (List.mem_singleton.mpr rfl)
      (.here (List.mem_singleton.mpr rfl)), by simp, by simp [Stmt.isComment]⟩)⟩

end Flowchart

end Ordo
