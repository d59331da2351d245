import Ordo.Proofs.Charts

namespace Ordo

/-!
# The shape of a control-flow graph

In a control-flow graph each node but the end is left by some edge, a return only by one to the
end, and a conditional by two.  Charts need not have this shape: the end of a branch is left to
whatever follows the conditional, which joins only the conditional itself to what comes next.

* `Flowchart.IsControlFlow` — the shape;
* `Flowchart.Exit` — how the drawing of a body leads on from a statement in it;
* `Stmt.ways` — the statements of a body at any depth, with how each is left;
* `Stmt.suits` — whether that suits the statement;
* `Flowchart.isControlFlow_iff_ways` — a chart has the shape if each statement is left as suits
  it.
-/

open List

namespace Flowchart

/-! ### Edges out of a node -/

/-- The targets of the edges that leave a node. -/
def exits (lines : List Line) (id : NodeId) : List (Option NodeId) :=
  ((edges lines).filter fun e => e.1 = id).map Prod.snd

section Reading

variable (id source : NodeId) (shape : Shape) (label : Label) (text : Option Label)
  (target : Option NodeId) (lines more : List Line)

@[simp] theorem exits_nil : exits [] id = [] := rfl

@[simp] theorem exits_node : exits (.node source shape label :: lines) id = exits lines id := rfl

@[simp] theorem exits_edge : exits (.edge source text target :: lines) id
    = if source = id then target :: exits lines id else exits lines id := by
  by_cases h : source = id <;> simp [exits, h]

@[simp] theorem exits_append : exits (lines ++ more) id = exits lines id ++ exits more id := by
  simp [exits]

end Reading

theorem exits_eq_nil {lines : List Line} {id : NodeId} (h : ∀ e ∈ edges lines, e.1 ≠ id) :
    exits lines id = [] := by
  rw [exits, map_eq_nil_iff, filter_eq_nil_iff]
  simpa using h

/-- The shape of a control-flow graph. -/
structure IsControlFlow (lines : List Line) : Prop where
  /-- Each node but the end is left by some edge. -/
  left : ∀ id ∈ declared lines, id ≠ .stop → exits lines id ≠ []
  /-- A return leads to the end and nowhere else. -/
  returns : ∀ number, .step .ret number ∈ declared lines →
    exits lines (.step .ret number) = [some .stop]
  /-- A conditional has two ways out. -/
  forks : ∀ number, .step .conditional number ∈ declared lines →
    (exits lines (.step .conditional number)).length = 2

/-- Whether a node of a control-flow graph may be left so. -/
@[simp] def NodeId.suits : NodeId → List (Option NodeId) → Prop
  | stop, _ => True
  | step .ret _, out => out = [some .stop]
  | step .conditional _, out => out.length = 2
  | _, out => out ≠ []

theorem isControlFlow_iff {lines : List Line} :
    IsControlFlow lines ↔ ∀ id ∈ declared lines, id.suits (exits lines id) := by
  constructor
  · intro h id hid
    cases id with
    | start => exact h.left _ hid (by simp)
    | stop => trivial
    | step kind number =>
      cases kind
      case ret => exact h.returns number hid
      case conditional => exact h.forks number hid
      all_goals exact h.left _ hid (by simp)
  · intro h
    refine ⟨fun id hid hstop => ?_, fun number hid => h _ hid, fun number hid => h _ hid⟩
    have hsuits := h id hid
    cases id with
    | start => exact hsuits
    | stop => exact absurd rfl hstop
    | step kind number =>
      cases kind
      case ret => exact fun hnil => by simp [hnil] at hsuits
      case conditional => exact fun hnil => by simp [hnil] at hsuits
      all_goals exact hsuits

/-! ### Ways out of statements -/

/-- How the drawing of a body leads on from a statement in it. -/
inductive Exit
  | nowhere
  /-- To another statement. -/
  | onward
  /-- To the end. -/
  | ending
  deriving DecidableEq, Repr

namespace Exit

/-- The number of edges. -/
def count : Exit → Nat
  | nowhere => 0
  | _ => 1

/-- The targets of the edges. -/
@[simp] def Gives : Exit → List (Option NodeId) → Prop
  | nowhere, out => out = []
  | onward, out => ∃ kind number, out = [some (.step kind number)]
  | ending, out => out = [some .stop]

variable {out : List (Option NodeId)} {e : Exit}

theorem Gives.length (h : e.Gives out) : out.length = e.count := by
  cases e with
  | onward =>
    obtain ⟨kind, number, rfl⟩ := h
    rfl
  | _ =>
    obtain rfl := h
    rfl

theorem Gives.ne_nil_iff (h : e.Gives out) : out ≠ [] ↔ 0 < e.count := by
  rw [← h.length, length_pos_iff]

theorem Gives.eq_stop_iff (h : e.Gives out) : out = [some .stop] ↔ e = .ending := by
  cases e with
  | onward =>
    obtain ⟨kind, number, rfl⟩ := h
    simp
  | _ =>
    obtain rfl := h
    simp

end Exit

end Flowchart

namespace Stmt

open Flowchart (Exit)

/-- Whether some statement is drawn, that is, no comment. -/
def anyDrawn (body : List Stmt) : Bool := !body.all isComment

/-- The edges by which a statement leads into itself. -/
@[simp] def entries : Stmt → Nat
  | forLoop _ _ _ body => (anyDrawn body).toNat
  | whileLoop _ body => (anyDrawn body).toNat
  | repeatLoop body _ => (!body.isEmpty).toNat
  | ifThen _ body => (anyDrawn body).toNat
  | ifElse _ body otherwise => (anyDrawn body).toNat + (anyDrawn otherwise).toNat
  | _ => 0

/-- Whether a statement of a control-flow graph may be left so: a return has to lead to the end, a
    conditional has two edges in all, and other statements have at least one. -/
def suits (s : Stmt) (e : Exit) : Bool :=
  match s with
  | comment _ => true
  | ret _ => e == .ending
  | ifThen _ _ => s.entries + e.count == 2
  | ifElse _ _ _ => s.entries + e.count == 2
  | _ => 0 < s.entries + e.count

/-- How a branch of a conditional is left: what returns leads to the end, and nothing else leads
    on. -/
def branchExit (body : List Stmt) : Exit := if endsTerminal body then .ending else .nowhere

mutual

/-- The statements inside a statement, with how each is left. -/
@[simp] def waysIn : Stmt → List (Stmt × Exit)
  | forLoop _ _ _ body => waysThrough .onward body
  | whileLoop _ body => waysThrough .onward body
  | repeatLoop body _ => waysThrough .onward body
  | ifThen _ body => waysThrough (branchExit body) body
  | ifElse _ body otherwise =>
      waysThrough (branchExit body) body ++ waysThrough (branchExit otherwise) otherwise
  | _ => []

/-- The statements of a body inside a statement.  Each leads to the next one, and the last is left
    as the body is. -/
@[simp] def waysThrough (e : Exit) : List Stmt → List (Stmt × Exit)
  | [] => []
  | s :: ss => (s, if anyDrawn ss then .onward else e) :: waysIn s ++ waysThrough e ss

end

/-- Statements are left as suits them. -/
def WaysSuit (ways : List (Stmt × Exit)) : Prop := ∀ p ∈ ways, p.1.suits p.2 = true

@[simp] theorem waysSuit_nil : WaysSuit [] := by simp [WaysSuit]

@[simp] theorem waysSuit_cons (s : Stmt) (e : Exit) (ways : List (Stmt × Exit)) :
    WaysSuit ((s, e) :: ways) ↔ s.suits e = true ∧ WaysSuit ways :=
  forall_mem_cons

@[simp] theorem waysSuit_append (ways more : List (Stmt × Exit)) :
    WaysSuit (ways ++ more) ↔ WaysSuit ways ∧ WaysSuit more :=
  forall_mem_append

/-- How a statement is left in a whole body with the given statements after it. -/
def exitBefore (s : Stmt) (rest : List Stmt) : Exit :=
  if anyDrawn rest then (if s.leadsOn then .onward else .nowhere)
  else if s.leadsToEnd then .ending else .nowhere

/-- The statements of a whole body at any depth, with how each is left. -/
@[simp] def ways : List Stmt → List (Stmt × Exit)
  | [] => []
  | s :: ss => (s, s.exitBefore ss) :: waysIn s ++ ways ss

end Stmt

namespace Flowchart

/-! ### Parts of a drawing -/

/-- The nodes of a part of a drawing are left as suits them, if they have some further edges. -/
def Suits (lines : List Line) (out : NodeId → List (Option NodeId)) : Prop :=
  ∀ id ∈ declared lines, id.suits (exits lines id ++ out id)

variable {lines : List Line} {out : NodeId → List (Option NodeId)} {n : Nat} {id : NodeId}

attribute [local simp] Stmt.suits Line.link Line.branch

theorem suits_congr {out' : NodeId → List (Option NodeId)}
    (h : ∀ id ∈ declared lines, out id = out' id) : Suits lines out ↔ Suits lines out' :=
  forall₂_congr fun id hid => by rw [h id hid]

@[simp] theorem suits_nil (out : NodeId → List (Option NodeId)) : Suits [] out := by
  simp [Suits]

variable (kind : NodeKind) {previous last : Option NodeId} {e : Exit} {more : List Line}

/-- Two parts of which the first has no edges out of the second. -/
theorem suits_append (out : NodeId → List (Option NodeId))
    (h : ∀ e ∈ edges lines, e.1 ∉ declared more) : Suits (lines ++ more) out ↔
      Suits lines (fun id => exits more id ++ out id) ∧ Suits more out := by
  have hmore : ∀ id ∈ declared more, exits lines id = [] := fun id hid =>
    exits_eq_nil fun e he heq => h e he (heq ▸ hid)
  constructor
  · intro hsuits
    refine ⟨fun id hid => ?_, fun id hid => ?_⟩
    · simpa using hsuits id (by simp [hid])
    · simpa [hmore id hid] using hsuits id (by simp [hid])
  · rintro ⟨hfirst, hsecond⟩ id hid
    rcases mem_append.mp (declared_append lines more ▸ hid) with hid | hid
    · simpa using hfirst id hid
    · simpa [hmore id hid] using hsecond id hid

/-- A part and edges after it. -/
theorem suits_link (out : NodeId → List (Option NodeId)) (h : declared more = []) :
    Suits (lines ++ more) out ↔ Suits lines fun id => exits more id ++ out id := by
  rw [suits_append out (by simp [h])]
  exact and_iff_left (by simp [Suits, h])

/-- A node and the part after it. -/
theorem suits_node (id : NodeId) (shape : Shape) (label : Label) (lines : List Line)
    (out : NodeId → List (Option NodeId)) : Suits (.node id shape label :: lines) out ↔
      id.suits (exits lines id ++ out id) ∧ Suits lines out := by
  rw [← singleton_append, suits_append out (by simp)]
  simp [Suits]

theorem Numbered.disjoint {m l : Nat} {ids more : List NodeId} (h : Numbered n ids m)
    (hmore : Numbered m more l) (hid : id ∈ ids) : id ∉ more := by
  intro hmem
  obtain ⟨kind, i, rfl, -, hhigh⟩ := h.exists_step hid
  obtain ⟨kind', j, heq, hlow, -⟩ := hmore.exists_step hmem
  simp only [NodeId.step.injEq] at heq
  omega

/-- A node before a part is left only by the edges of the part that start at it. -/
theorem exits_eq_nil_of_sources (h : ∀ e ∈ edges lines, e.1 ∈ declared lines ∨ previous = some e.1)
    (hid : id ∉ declared lines) (hprevious : previous ≠ some id) : exits lines id = [] := by
  refine exits_eq_nil fun e he heq => ?_
  rcases h e he with hmem | hmem
  · exact hid (heq ▸ hmem)
  · exact hprevious (heq ▸ hmem)

theorem Joins.exits_eq_nil {m : Nat} (h : Joins n lines m previous) (hid : id ∉ declared lines)
    (hprevious : previous ≠ some id) : exits lines id = [] :=
  exits_eq_nil_of_sources h.sources hid hprevious

/-- Only the last node of a part has further edges, and these lead out of it. -/
def LeavesBy (lines : List Line) (last : Option NodeId) (e : Exit)
    (out : NodeId → List (Option NodeId)) : Prop :=
  ∀ id ∈ declared lines, if last = some id then e.Gives (out id) else out id = []

theorem LeavesBy.gives (h : LeavesBy lines last e out) (hid : id ∈ declared lines)
    (hlast : last = some id) : e.Gives (out id) :=
  by simpa [hlast] using h id hid

theorem LeavesBy.eq_nil (h : LeavesBy lines last e out) (hid : id ∈ declared lines)
    (hlast : last ≠ some id) : out id = [] :=
  by simpa [hlast] using h id hid

/-- A body has a first and a last node, or nothing is drawn of it. -/
theorem ends_drawBody (n : Nat) (body : List Stmt) :
    (Stmt.anyDrawn body = false ∧ drawBody n none body = ⟨⟨none, none⟩, [], n⟩) ∨
    (Stmt.anyDrawn body = true ∧ ∃ first ∈ declared (drawBody n none body).lines,
      ∃ last ∈ declared (drawBody n none body).lines,
        (drawBody n none body).result = ⟨some first, some last⟩) := by
  have hdrawn := isSome_last_drawBody n none body
  have hnone := isNone_first_drawBody n none body
  cases hall : body.all Stmt.isComment with
  | true => exact .inl ⟨by simp [Stmt.anyDrawn, hall], drawBody_of_comments hall n none⟩
  | false =>
    obtain ⟨-, hfirst, hlast⟩ := joins_drawBody n none body
    obtain ⟨last, hl⟩ := Option.isSome_iff_exists.mp (hdrawn.trans (by simp [hall]))
    obtain ⟨first, hf⟩ : ∃ first, (drawBody n none body).result.first = some first := by
      rw [← Option.isSome_iff_exists, ← Option.not_isNone, hnone, hall]
      rfl
    refine .inr ⟨by simp [Stmt.anyDrawn, hall], first, hfirst first hf, last, ?_, ?_⟩
    · exact (hlast last hl).resolve_right (by simp)
    · rw [← hf, ← hl]

/-- A body is drawn with later numbers. -/
theorem not_mem_drawBody {i : Nat} (hi : i ≤ n) (body : List Stmt) :
    .step kind i ∉ declared (drawBody n none body).lines := by
  intro hmem
  obtain ⟨kind', j, heq, hlow, -⟩ := (joins_drawBody n none body).1.numbered.exists_step hmem
  simp only [NodeId.step.injEq] at heq
  omega

/-- What is drawn of a body after a node is joined to it by one edge. -/
theorem exits_previous_drawBody (n : Nat) (id : NodeId) (body : List Stmt)
    (hid : id ∉ declared (drawBody n (some id) body).lines) :
    (Stmt.anyDrawn body = false ∧ drawBody n (some id) body = ⟨⟨none, some id⟩, [], n⟩) ∨
    (Stmt.anyDrawn body = true ∧
      (∀ l ∈ (drawBody n (some id) body).result.last,
        l ∈ declared (drawBody n (some id) body).lines) ∧
      ∃ first ∈ declared (drawBody n (some id) body).lines,
        exits (drawBody n (some id) body).lines id = [some first]) := by
  induction body generalizing n with
  | nil => exact .inl ⟨rfl, by rw [drawBody]⟩
  | cons s body ih =>
    cases hd : (drawStmt n s).result with
    | none =>
      obtain ⟨text, rfl⟩ := eq_comment_of_eq_none hd
      simp only [drawBody, drawStmt, nil_append] at hid ⊢
      exact ih n hid
    | some first =>
      obtain ⟨hs, hresult⟩ := joins_drawStmt n s
      obtain ⟨hbody, -, hlast⟩ := joins_drawBody (drawStmt n s).count (some first) body
      have hfirst := hresult first hd
      simp only [drawBody, hd, declared_append, declared_linkFrom, append_nil,
        mem_append, not_or] at hid ⊢
      refine .inr ⟨by simp [Stmt.anyDrawn, isComment_of_eq_some hd], fun l hl => ?_, first,
        .inl hfirst, ?_⟩
      · rcases hlast l hl with hmem | ⟨⟨⟩⟩
        · exact .inr hmem
        · exact .inl hfirst
      · have hne : some first ≠ some id := by
          rintro ⟨⟩
          exact hid.1 hfirst
        simp [hs.exits_eq_nil hid.1 (by simp), hbody.exits_eq_nil hid.2 hne, linkFrom]

/-- How a branch of a conditional is left. -/
theorem leavesBy_branch (n : Nat) (body : List Stmt) (id : NodeId) (word : String)
    (out : NodeId → List (Option NodeId)) (hid : id ∉ declared (drawBody n none body).lines)
    (hout : ∀ i ∈ declared (drawBody n none body).lines, out i = []) :
    LeavesBy (drawBody n none body).lines (drawBody n none body).result.last
      (Stmt.branchExit body) fun i =>
        exits (branchLines id word (drawBody n none body).result (Stmt.endsTerminal body)) i
          ++ out i := by
  intro i hi
  have hne : id ≠ i := fun heq => hid (heq ▸ hi)
  rcases ends_drawBody n body with ⟨-, heq⟩ | ⟨-, first, -, last, -, hresult⟩
  · simp [heq] at hi
  · rw [hresult, branchLines, Stmt.branchExit]
    cases Stmt.endsTerminal body <;> by_cases hlast : last = i <;>
      simp [hne, hout i hi, hlast]

/-- The edges of a conditional into a branch. -/
theorem length_exits_branchLines (n : Nat) (body : List Stmt) (id : NodeId) (word : String)
    (hid : id ∉ declared (drawBody n none body).lines) :
    (exits (branchLines id word (drawBody n none body).result (Stmt.endsTerminal body)) id).length
      = (Stmt.anyDrawn body).toNat := by
  rcases ends_drawBody n body with ⟨hdrawn, heq⟩ | ⟨hdrawn, first, -, last, hlast, hresult⟩
  · simp [hdrawn, heq, branchLines]
  · have hne : last ≠ id := fun heq => hid (heq ▸ hlast)
    rw [hresult, branchLines, hdrawn]
    cases Stmt.endsTerminal body <;> simp [hne]

/-- The other edges of a branch leave its own nodes. -/
theorem exits_branchLines_eq_nil (n : Nat) (body : List Stmt) {i : NodeId} (word : String)
    (hne : id ≠ i) (hi : i ∉ declared (drawBody n none body).lines) :
    exits (branchLines id word (drawBody n none body).result (Stmt.endsTerminal body)) i = [] := by
  rcases ends_drawBody n body with ⟨hdrawn, heq⟩ | ⟨hdrawn, first, -, last, hlast, hresult⟩
  · simp [heq, branchLines]
  · have hne' : last ≠ i := fun heq => hi (heq ▸ hlast)
    rw [hresult, branchLines]
    cases Stmt.endsTerminal body <;> simp [hne, hne']

/-- A single node. -/
theorem suits_drawNode (shape : Shape) (label : String) (n : Nat)
    (hout : LeavesBy (drawNode kind shape label n).lines (drawNode kind shape label n).result e out) :
    e.Gives (out (.step kind (n + 1))) ∧ (Suits (drawNode kind shape label n).lines out ↔
      (NodeId.step kind (n + 1)).suits (out (.step kind (n + 1)))) := by
  exact ⟨hout.gives (by simp [drawNode]) rfl, by simp [drawNode, Suits]⟩

mutual

/-- **A drawn statement** and all inside it are left as suits them. -/
theorem suits_drawStmt (n : Nat) (s : Stmt) {e : Exit} {out : NodeId → List (Option NodeId)}
    (hout : LeavesBy (drawStmt n s).lines (drawStmt n s).result e out) :
    Suits (drawStmt n s).lines out ↔
      s.suits e = true ∧ Stmt.WaysSuit s.waysIn := by
  cases s with
  | assign target value | call name arguments | other v =>
    obtain ⟨hgives, hsuits⟩ := suits_drawNode _ _ _ n hout
    rw [drawStmt, hsuits]
    simpa using hgives.ne_nil_iff
  | ret value =>
    obtain ⟨hgives, hsuits⟩ := suits_drawNode _ _ _ n hout
    rw [drawStmt, hsuits]
    simpa using hgives.eq_stop_iff
  | comment text => simp [drawStmt]
  | ifThen condition body =>
    have hid := not_mem_drawBody .conditional (Nat.le_refl (n + 1)) body
    have hown := (joins_drawBody (n + 1) none body).1.exits_eq_nil hid (by simp)
    simp only [drawStmt] at hout ⊢
    have hgives := hout.gives (by simp) rfl
    have hnil : ∀ i ∈ declared (drawBody (n + 1) none body).lines, out i = [] := fun i hi =>
      hout.eq_nil (by simp [hi]) (by rintro ⟨⟩; exact hid hi)
    rw [cons_append, suits_node, suits_link _ (declared_branchLines ..),
      suits_drawBody (n + 1) none body (by simp) (leavesBy_branch _ body _ _ out hid hnil),
      exits_append, hown]
    simp [hgives.length, length_exits_branchLines (n + 1) body _ _ hid]
  | ifElse condition body otherwise =>
    have hfirst := (joins_drawStmt n (.ifThen condition body)).1
    simp only [drawStmt] at hfirst
    have hbody := (joins_drawBody (n + 1) none body).1
    have hother := (joins_drawBody (drawBody (n + 1) none body).count none otherwise).1
    have hid := not_mem_drawBody .conditional (Nat.le_refl (n + 1)) body
    have hid' := not_mem_drawBody .conditional hbody.numbered.le otherwise
    have hapart : ∀ i ∈ declared (drawBody (n + 1) none body).lines,
        i ∉ declared (drawBody (drawBody (n + 1) none body).count none otherwise).lines :=
      fun i hi => hbody.numbered.disjoint hother.numbered hi
    simp only [drawStmt] at hout ⊢
    have hgives := hout.gives (by simp) rfl
    have hnil : ∀ i ∈ declared (drawBody (n + 1) none body).lines, out i = [] := fun i hi =>
      hout.eq_nil (by simp [hi]) (by rintro ⟨⟩; exact hid hi)
    have hnil' : ∀ i ∈ declared (drawBody (drawBody (n + 1) none body).count none otherwise).lines,
        out i = [] := fun i hi =>
      hout.eq_nil (by simp [hi]) (by rintro ⟨⟩; exact hid' hi)
    rw [cons_append, cons_append, cons_append, suits_node,
      suits_link _ (declared_branchLines ..), suits_append, suits_link _ (declared_branchLines ..),
      suits_drawBody _ none otherwise (by simp) (leavesBy_branch _ otherwise _ _ out hid' hnil'),
      suits_drawBody _ none body (by simp) (leavesBy_branch _ body _ _ _ hid ?_)]
    · simp [hgives.length, length_exits_branchLines _ body _ _ hid,
        length_exits_branchLines _ otherwise _ _ hid', hbody.exits_eq_nil hid,
        hother.exits_eq_nil hid', Nat.add_assoc]
    · intro i hi
      have hne : NodeId.step .conditional (n + 1) ≠ i := fun heq => hid (heq ▸ hi)
      simp [hother.exits_eq_nil (hapart i hi), hnil i hi,
        exits_branchLines_eq_nil _ otherwise _ hne (hapart i hi)]
    · intro e he
      have hsource := (hfirst.sources e (by simpa using he)).resolve_right (by simp)
      exact hfirst.numbered.disjoint hother.numbered hsource
  | forLoop name start stop body =>
    have hid := not_mem_drawBody .forLoop (Nat.le_refl (n + 1)) body
    have hbody := (joins_drawBody (n + 1) none body).1
    rcases ends_drawBody (n + 1) body with ⟨hdrawn, heq⟩ | ⟨hdrawn, first, -, last, hlast, hresult⟩
    · have hinner := suits_drawBody (n + 1) none body (by simp)
        (show LeavesBy _ _ .onward out by simp [LeavesBy, heq])
      simp only [drawStmt, heq] at hout hinner ⊢
      have hgives := hout.gives (by simp) rfl
      rw [suits_node, hinner]
      simp [hdrawn, hgives.ne_nil_iff]
    · simp only [drawStmt, hresult] at hout ⊢
      have hne : last ≠ .step .forLoop (n + 1) := fun heq => hid (heq ▸ hlast)
      rw [cons_append, suits_node, suits_append, suits_drawBody _ none body (by simp)
        (e := .onward) ?_]
      · have hnext : last ≠ .step .increment ((drawBody (n + 1) none body).count + 1) := by
          rintro rfl
          exact hbody.numbered.disjoint (.single .increment _) hlast (by simp)
        simp [Suits, hdrawn, hne, hnext, Nat.add_pos_left]
      · intro i hi
        have hnil : out i = [] := hout.eq_nil (by simp [hi]) (by rintro ⟨⟩; exact hid hi)
        obtain ⟨kind, j, rfl, hlow, hhigh⟩ := hbody.numbered.exists_step hi
        have hne' : n + 1 ≠ j := by omega
        have hne'' : (drawBody (n + 1) none body).count + 1 ≠ j := by omega
        by_cases heq : last = .step kind j <;>
          simp [hresult, hnil, heq, hne', hne'']
      · intro e he hmem
        have hsource := (hbody.sources e he).resolve_right (by simp)
        exact hbody.numbered.disjoint (.single .increment _) hsource
          (by simpa using hmem)
  | whileLoop condition body =>
    have hid := not_mem_drawBody .whileLoop (Nat.le_refl (n + 1)) body
    have hbody := (joins_drawBody (n + 1) none body).1
    rcases ends_drawBody (n + 1) body with ⟨hdrawn, heq⟩ | ⟨hdrawn, first, -, last, hlast, hresult⟩
    · have hinner := suits_drawBody (n + 1) none body (by simp)
        (show LeavesBy _ _ .onward out by simp [LeavesBy, heq])
      simp only [drawStmt, heq] at hout hinner ⊢
      have hgives := hout.gives (by simp) rfl
      rw [suits_node, hinner]
      simp [hdrawn, hgives.ne_nil_iff]
    · simp only [drawStmt, hresult] at hout ⊢
      rw [cons_append, suits_node, suits_link _ rfl, suits_drawBody _ none body (by simp)
        (e := .onward) ?_]
      · simp [hdrawn, Nat.add_pos_left]
      · intro i hi
        have hnil : out i = [] := hout.eq_nil (by simp [hi]) (by rintro ⟨⟩; exact hid hi)
        have hne : NodeId.step .whileLoop (n + 1) ≠ i := fun heq => hid (heq ▸ hi)
        by_cases heq : last = i <;>
          simp [hresult, hnil, heq, hne]
  | repeatLoop body condition =>
    cases body with
    | nil =>
      simp only [drawStmt] at hout ⊢
      have hgives := hout.gives (by simp) rfl
      simp [Suits, hgives.ne_nil_iff]
    | cons s ss =>
      have hbody := (joins_drawBody n none (s :: ss)).1
      have hfresh : ∀ i ∈ declared (drawBody n none (s :: ss)).lines,
          NodeId.step .repeatLoop ((drawBody n none (s :: ss)).count + 1) ≠ i := by
        rintro i hi rfl
        exact hbody.numbered.disjoint (.single .repeatLoop _) hi (by simp)
      simp only [drawStmt] at hout ⊢
      rw [suits_link _ rfl, suits_link _ (declared_linkFrom ..), suits_append,
        suits_drawBody n none (s :: ss) (by simp) (e := .onward) ?_]
      · simp [Suits, Nat.add_pos_left]
      · intro i hi
        have hnil : out i = [] := hout.eq_nil (by simp [hi]) (by simpa using hfresh i hi)
        cases hlast : (drawBody n none (s :: ss)).result.last with
        | none => simp [hnil, hfresh i hi, linkFrom]
        | some last =>
          by_cases heq : last = i <;>
            simp [hnil, hfresh i hi, linkFrom, heq]
      · intro e he hmem
        have hsource := (hbody.sources e he).resolve_right (by simp)
        exact hfresh e.1 hsource (by simpa [eq_comm] using hmem)

/-- The same for several statements after a previous one. -/
theorem suits_drawBody (n : Nat) (previous : Option NodeId) (body : List Stmt) {e : Exit}
    {out : NodeId → List (Option NodeId)}
    (hprevious : ∀ p ∈ previous, p ∉ declared (drawBody n previous body).lines)
    (hout : LeavesBy (drawBody n previous body).lines (drawBody n previous body).result.last e
      out) : Suits (drawBody n previous body).lines out ↔
      Stmt.WaysSuit (Stmt.waysThrough e body) := by
  cases body with
  | nil => simp [drawBody]
  | cons s ss =>
    cases hd : (drawStmt n s).result with
    | none =>
      obtain ⟨text, rfl⟩ := eq_comment_of_eq_none hd
      simp only [drawBody, drawStmt, nil_append] at hprevious hout ⊢
      rw [suits_drawBody n previous ss hprevious hout]
      simp
    | some id =>
      obtain ⟨hs, hresult⟩ := joins_drawStmt n s
      obtain ⟨hss, -, hlast⟩ := joins_drawBody (drawStmt n s).count (some id) ss
      have hid := hresult id hd
      have hapart : ∀ i ∈ declared (drawStmt n s).lines,
          i ∉ declared (drawBody (drawStmt n s).count (some id) ss).lines := fun i hi =>
        hs.numbered.disjoint hss.numbered hi
      simp only [drawBody, hd] at hprevious hout ⊢
      rw [suits_append, suits_link _ (declared_linkFrom ..),
        suits_drawBody (drawStmt n s).count (some id) ss (by simpa using hapart id hid)
          (fun i hi => hout i (by simp [hi])),
        suits_drawStmt n s (e := if Stmt.anyDrawn ss then .onward else e) ?_]
      · simp [and_assoc]
      · intro i hi
        have hfrom : exits (linkFrom previous id) i = [] := by
          refine exits_eq_nil fun e he heq => ?_
          obtain ⟨p, hp, rfl⟩ : ∃ p ∈ previous, (p, some id) = e := by simpa using he
          obtain rfl : p = i := heq
          exact hprevious p hp (by simp [hi])
        rw [hd]
        rcases exits_previous_drawBody _ id ss (hapart id hid) with
          ⟨hdrawn, heq⟩ | ⟨hdrawn, hinside, first, hfirst, hexits⟩
        · simp only [heq] at hout ⊢
          simpa [hfrom, hdrawn] using hout i (by simp [hi])
        · have hnil : out i = [] := hout.eq_nil (by simp [hi]) fun hl => hapart i hi (hinside i hl)
          by_cases heq : id = i
          · subst heq
            obtain ⟨kind, j, rfl, -⟩ := hss.numbered.exists_step hfirst
            simp [hfrom, hexits, hnil, hdrawn]
          · simp [heq, hfrom, hnil, hss.exits_eq_nil (hapart i hi) (by simpa using heq)]
      · intro e he
        rcases mem_append.mp (edges_append _ _ ▸ he) with he | he
        · exact hapart _ ((hs.sources e he).resolve_right (by simp))
        · obtain ⟨p, hp, rfl⟩ : ∃ p ∈ previous, (p, some id) = e := by simpa using he
          exact fun hmem => hprevious p hp (by simp [hmem])

end

/-! ### Whole bodies -/

theorem exits_exitsFrom (id : NodeId) (s : Stmt) (next : NodeId) :
    exits (exitsFrom (some (id, s)) next) id = if s.leadsOn then [some next] else [] := by
  rw [exits, exitsFrom, Option.elim_some, edges_exitLines]
  split <;> simp

theorem exits_endLines (id : NodeId) (s : Stmt) :
    exits (endLines id s) id = if s.leadsToEnd then [some .stop] else [] := by
  rw [exits, edges_endLines]
  split <;> simp

/-- Nodes drawn before a part are not declared by it. -/
theorem Numbered.not_mem_closes {m l : Nat} {ids : List NodeId} (h : Numbered n ids m)
    (hcloses : Closes m lines l previous) (hid : id ∈ ids) : id ∉ declared lines := by
  obtain ⟨more, hmore, hdeclared⟩ := hcloses.nodes
  obtain ⟨kind, i, rfl, -⟩ := h.exists_step hid
  rw [hdeclared]
  simpa using h.disjoint hmore hid

/-- How a statement in a whole body is left. -/
theorem gives_exits_drawAfter (n : Nat) (id : NodeId) (s : Stmt) (body : List Stmt)
    (hid : id ∉ declared (drawAfter n (some (id, s)) body).lines) :
    (s.exitBefore body).Gives (exits (drawAfter n (some (id, s)) body).lines id) := by
  induction body generalizing n with
  | nil =>
    rw [drawAfter, endNode, exits_node, exits_endLines, Stmt.exitBefore]
    cases s.leadsToEnd <;> simp [Stmt.anyDrawn]
  | cons t body ih =>
    cases hd : (drawStmt n t).result with
    | none =>
      obtain ⟨text, rfl⟩ := eq_comment_of_eq_none hd
      simp only [drawAfter, drawStmt, nil_append] at hid ⊢
      exact ih n hid
    | some next =>
      obtain ⟨hs, hresult⟩ := joins_drawStmt n t
      obtain ⟨hrest, -⟩ := closes_drawAfter (drawStmt n t).count (some (next, t)) body
      have hnext := hresult next hd
      obtain ⟨kind, i, rfl, -⟩ := hs.numbered.exists_step hnext
      simp only [drawAfter_of_eq_some hd, declared_append, declared_exitsFrom, append_nil,
        mem_append, not_or] at hid ⊢
      have hne : some (NodeId.step kind i) ≠ some id := by
        rintro ⟨⟩
        exact hid.1 hnext
      rw [exits_append, exits_append, hs.exits_eq_nil hid.1 (by simp), exits_exitsFrom,
        exits_eq_nil_of_sources hrest.sources hid.2 hne, Stmt.exitBefore]
      cases s.leadsOn <;> simp [Stmt.anyDrawn, isComment_of_eq_some hd]

/-- A whole body up to the end. -/
theorem suits_drawAfter (n : Nat) (previous : Option (NodeId × Stmt)) (body : List Stmt)
    (hprevious : ∀ p ∈ previous, p.1 ∉ declared (drawAfter n previous body).lines) :
    Suits (drawAfter n previous body).lines (fun _ => []) ↔ Stmt.WaysSuit (Stmt.ways body) := by
  induction body generalizing n previous with
  | nil => cases previous <;> simp [drawAfter, endNode, Suits]
  | cons s body ih =>
    cases hd : (drawStmt n s).result with
    | none =>
      obtain ⟨text, rfl⟩ := eq_comment_of_eq_none hd
      simp only [drawAfter, drawStmt, nil_append] at hprevious ⊢
      rw [ih n previous hprevious]
      simp
    | some id =>
      obtain ⟨hs, hresult⟩ := joins_drawStmt n s
      obtain ⟨hrest, -⟩ := closes_drawAfter (drawStmt n s).count (some (id, s)) body
      have hid := hresult id hd
      have hapart : ∀ i ∈ declared (drawStmt n s).lines,
          i ∉ declared (drawAfter (drawStmt n s).count (some (id, s)) body).lines := fun i hi =>
        hs.numbered.not_mem_closes hrest hi
      rw [drawAfter_of_eq_some hd] at hprevious ⊢
      rw [suits_append, suits_link _ (declared_exitsFrom ..),
        ih _ _ (by simpa using hapart id hid),
        suits_drawStmt n s (e := s.exitBefore body) ?_]
      · simp [and_assoc]
      · intro i hi
        have hfrom : exits (exitsFrom previous id) i = [] := by
          refine exits_eq_nil fun e he heq => ?_
          obtain ⟨p, hp, rfl⟩ := eq_of_mem_edges_exitsFrom he
          obtain rfl : p.1 = i := heq
          exact hprevious p hp (by simp [hi])
        rw [hd]
        by_cases heq : id = i
        · subst heq
          simpa [hfrom] using gives_exits_drawAfter _ id s body (hapart id hid)
        · simp [heq, hfrom, exits_eq_nil_of_sources hrest.sources (hapart i hi)
            (by simpa using heq)]
      · intro e he
        rcases mem_append.mp (edges_append _ _ ▸ he) with he | he
        · exact hapart _ ((hs.sources e he).resolve_right (by simp))
        · obtain ⟨p, hp, rfl⟩ := eq_of_mem_edges_exitsFrom he
          exact fun hmem => hprevious p hp (by simp [hmem])

/-! ### Charts -/

/-- **The shape of a chart.**  The chart of a body is a control-flow graph if each of its statements
    is left as suits it. -/
theorem isControlFlow_ofBody (title : String) (body : List Stmt) :
    IsControlFlow (ofBody title body).lines ↔ Stmt.WaysSuit (Stmt.ways body) := by
  have hshape : IsControlFlow (ofBody title body).lines ↔
      Suits (ofBody title body).lines fun _ => [] := by
    simp [isControlFlow_iff, Suits]
  rw [hshape]
  cases body with
  | nil => simp [ofBody, drawSequence, endNode, Suits]
  | cons s body =>
    have hcloses := (closes_drawAfter 0 none (s :: body)).1
    have hstart : .start ∉ declared (drawAfter 0 none (s :: body)).lines := by
      obtain ⟨ids, hids, hdeclared⟩ := hcloses.nodes
      intro hmem
      obtain ⟨kind, i, heq, -⟩ := hids.exists_step (by simpa [hdeclared] using hmem)
      simp at heq
    have hnil : ∀ i ∈ declared (drawAfter 0 none (s :: body)).lines,
        exits [.edge .start none (drawAfter 0 none (s :: body)).result] i ++ [] = [] := by
      intro i hi
      have hne : NodeId.start ≠ i := fun heq => hstart (heq ▸ hi)
      simp [hne]
    rw [ofBody, drawSequence, cons_append, suits_node, suits_link _ rfl, suits_congr hnil,
      suits_drawAfter 0 none _ (by simp)]
    simp

/-- The chart of a program or a subroutine is a control-flow graph exactly if each statement, at any
    depth, is left as suits it.  At the end of a branch of a conditional only what returns is left
    by an edge; in the body of a loop a return leads on like any other statement; a return or a
    terminal conditional before further statements leads nowhere. -/
theorem isControlFlow_iff_ways {v : Value} {chart : Flowchart} (h : ofValue v = .ok chart) :
    ∃ body, bodyIn v = .ok body ∧
      (IsControlFlow chart.lines ↔
        ∀ p ∈ Stmt.ways (Stmt.ofItems body), p.1.suits p.2 = true) := by
  obtain ⟨body, title, hbody, rfl⟩ := eq_ofBody_of_ofValue h
  exact ⟨body, hbody, isControlFlow_ofBody title (Stmt.ofItems body)⟩

/-- Nothing leads on from an assignment in a branch. -/
theorem isControlFlow_iff_ways_branch :
    let v : Value := .node .subroutine [.str "f", .list [], .none,
      .list [.node .ifStatement [.str "x",
        .node .block [.list [.node .assignment [.str "y", .str "1"]]], .none]]]
    ∃ chart, ofValue v = .ok chart ∧ ¬ IsControlFlow chart.lines := by
  intro v
  have h : ofValue v = .ok _ := rfl
  obtain ⟨body, hbody, hshape⟩ := isControlFlow_iff_ways h
  obtain rfl := Except.ok.inj hbody
  exact ⟨_, h, fun hflow => absurd (List.all_eq_true.mpr (hshape.mp hflow)) (by decide)⟩

end Flowchart

end Ordo
