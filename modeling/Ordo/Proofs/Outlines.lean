import Ordo.Proofs.ParseTrees
import Ordo.Proofs.RoundTrip

namespace Ordo

/-!
# Outlines of programs

The outline of a program says which classes and subroutines it has, and of its statements their
kinds and how they are nested.  It can be read off the parse tree of a text and off the syntax tree
that is built from it.  The two agree, but for declarations: of these only those directly in the
body of a repeat loop are left.

* `Outline`, `ProgramOutline` — outlines, and what is left of them without declarations;
* `ParseTree.programOutline` — the outline of a parse tree;
* `Value.programOutline?` — the outline of a syntax tree, if it is one;
* `ParseTree.keeps_statement` — building from a statement keeps its outline;
* `outline_build` — building from the parse tree of a text keeps the outline of the program.
-/

open List

open Build (ofRule parametersOf nodesOf)

/-- The kinds of statements. -/
inductive StatementKind
  | declaration | assignment | forLoop | whileLoop | repeatLoop | ifStatement | callStatement
  | returnStatement | comment
  deriving DecidableEq, Repr

/-- The outline of a statement: its kind, and the outlines of the statements in its bodies. -/
inductive Outline
  | mk (kind : StatementKind) (bodies : List (List Outline))

namespace Outline

mutual

/-- Whether two outlines are the same. -/
def decEq : (o p : Outline) → Decidable (o = p)
  | mk k bs, mk l cs =>
      have := decEqBodies bs cs
      decidable_of_iff (k = l ∧ bs = cs) (by simp)

/-- Whether the bodies of two statements are the same. -/
def decEqBodies : (bs cs : List (List Outline)) → Decidable (bs = cs)
  | [], [] => isTrue rfl
  | [], _ :: _ | _ :: _, [] => isFalse (by simp)
  | b :: bs, c :: cs =>
      have := decEqAll b c
      have := decEqBodies bs cs
      decidable_of_iff (b = c ∧ bs = cs) (by simp)

/-- Whether two bodies are the same. -/
def decEqAll : (os ps : List Outline) → Decidable (os = ps)
  | [], [] => isTrue rfl
  | [], _ :: _ | _ :: _, [] => isFalse (by simp)
  | o :: os, p :: ps =>
      have := decEq o p
      have := decEqAll os ps
      decidable_of_iff (o = p ∧ os = ps) (by simp)

end

instance : DecidableEq Outline := decEq

end Outline

/-- The outline of a subroutine. -/
structure SubroutineOutline where
  name : String
  parameters : List String
  body : List Outline
  deriving DecidableEq

/-- The outline of a program. -/
structure ProgramOutline where
  classes : List ClassDefinition
  subroutines : List SubroutineOutline
  body : List Outline
  deriving DecidableEq

namespace Outline

def kind : Outline → StatementKind
  | mk k _ => k

mutual

/-- What is left of a statement.  Declarations stay in the bodies of repeat loops only. -/
def kept : Outline → Outline
  | mk k bodies => mk k (keptBodies (k == .repeatLoop) bodies)

/-- What is left of the bodies of a statement. -/
def keptBodies (declarations : Bool) : List (List Outline) → List (List Outline)
  | [] => []
  | body :: bodies => keptAll declarations body :: keptBodies declarations bodies

/-- What is left of several statements, with or without the declarations among them. -/
def keptAll (declarations : Bool) : List Outline → List Outline
  | [] => []
  | o :: os =>
      if declarations || o.kind != .declaration then o.kept :: keptAll declarations os
      else keptAll declarations os

end

theorem kind_kept (o : Outline) : o.kept.kind = o.kind := by
  cases o
  rfl

end Outline

/-- What is left of a subroutine. -/
def SubroutineOutline.kept (s : SubroutineOutline) : SubroutineOutline :=
  { s with body := Outline.keptAll false s.body }

/-- What is left of a program: all but the declarations outside of repeat loops. -/
def ProgramOutline.kept (p : ProgramOutline) : ProgramOutline :=
  { p with
    subroutines := p.subroutines.map SubroutineOutline.kept
    body := Outline.keptAll false p.body }

/-! ### Outlines of parse trees -/

/-- The kind of the statements that a rule is for. -/
def Rule.statementKind? : Rule → Option StatementKind
  | .declaration => some .declaration
  | .assignment => some .assignment
  | .forLoop => some .forLoop
  | .whileLoop => some .whileLoop
  | .repeatLoop => some .repeatLoop
  | .ifStatement => some .ifStatement
  | .callStatement => some .callStatement
  | .returnStatement => some .returnStatement
  | .comment => some .comment
  | _ => none

namespace ParseTree

mutual

/-- The outline of a statement; none of anything else. -/
def outlines : ParseTree → List Outline
  | .node .statement children => outlinesAll children
  | .node r children =>
      match r.statementKind? with
      | some .repeatLoop => [.mk .repeatLoop [outlinesAll children]]
      | some k => [.mk k (blocksAll children)]
      | none => []
  | .leaf _ => []

/-- The outlines of the statements among parse trees, in order. -/
def outlinesAll : List ParseTree → List Outline
  | [] => []
  | t :: ts => t.outlines ++ outlinesAll ts

/-- The outlines of the statements in a block; none of anything else. -/
def blocks : ParseTree → List (List Outline)
  | .node .block children => [outlinesAll children]
  | _ => []

/-- The outlines of the blocks among parse trees, in order. -/
def blocksAll : List ParseTree → List (List Outline)
  | [] => []
  | t :: ts => t.blocks ++ blocksAll ts

end

/-- The parts of the nodes of a rule among parse trees, in order. -/
def under (r : Rule) (ts : List ParseTree) : List ParseTree :=
  ts.flatMap fun t =>
    match t with
    | .node s children => if s = r then children else []
    | .leaf _ => []

/-- The text of a token. -/
def word? : ParseTree → Option String
  | .leaf t => some t.text
  | .node _ _ => none

/-- A class: its name and its attributes. -/
def class? : ParseTree → Option ClassDefinition
  | .node .classDefinition (.leaf name :: parts) =>
      some ⟨name.text, (under .attributeList parts).filterMap word?⟩
  | _ => none

/-- The name of a parameter, which comes after the class if there is one. -/
def parameter? : ParseTree → Option String
  | .node .parameter [.node .objectParameter [_, name]] => name.word?
  | .node .parameter [.node _ (name :: _)] => name.word?
  | _ => none

/-- The outline of a subroutine. -/
def subroutine? : ParseTree → Option SubroutineOutline
  | .node .subroutineDefinition (.leaf name :: parts) =>
      some ⟨name.text, (under .parameterList parts).filterMap parameter?, outlinesAll parts⟩
  | _ => none

/-- **The outline of a parse tree.** -/
def programOutline (tree : ParseTree) : ProgramOutline :=
  let parts := under .program (under .start [tree])
  let inner := under .algorithm parts
  { classes := parts.filterMap class?
    subroutines := inner.filterMap subroutine?
    body := outlinesAll (under .mainAlgorithm inner) }

end ParseTree

/-! ### Outlines of syntax trees -/

namespace Value

mutual

/-- The outline of a statement.  Declarations among statements are parse trees still. -/
def outline? : Value → Option Outline
  | .tree (.token "RULE" "declaration") _ => some (.mk .declaration [])
  | .node .assignment _ => some (.mk .assignment [])
  | .node .forLoop [_, _, _, body] => (blockOutlines? body).map fun b => .mk .forLoop [b]
  | .node .whileLoop [_, body] => (blockOutlines? body).map fun b => .mk .whileLoop [b]
  | .node .repeatLoop [.list body, _] => (outlines? body).map fun b => .mk .repeatLoop [b]
  -- without an else branch there is nothing in its place
  | .node .ifStatement [_, body, .none] => (blockOutlines? body).map fun b => .mk .ifStatement [b]
  | .node .ifStatement [_, body, otherwise] =>
      (blockOutlines? body).bind fun b =>
        (blockOutlines? otherwise).map fun c => .mk .ifStatement [b, c]
  | .node .callStatement _ => some (.mk .callStatement [])
  | .node .returnStatement _ => some (.mk .returnStatement [])
  | .node .comment _ => some (.mk .comment [])
  | _ => Option.none

/-- The outlines of the statements in a block. -/
def blockOutlines? : Value → Option (List Outline)
  | .node .block [.list body] => outlines? body
  | _ => Option.none

/-- The outlines of several statements, if all of them are statements. -/
def outlines? : List Value → Option (List Outline)
  | [] => some []
  | v :: vs => v.outline?.bind fun o => (outlines? vs).map (o :: ·)

end

/-- A text. -/
def word? : Value → Option String
  | .str s => some s
  | _ => Option.none

/-- A class: its name and its attributes. -/
def class? : Value → Option ClassDefinition
  | .node .classDefinition [.str name, .list fields] => (fields.mapM word?).map (⟨name, ·⟩)
  | _ => Option.none

/-- The name of a parameter. -/
def parameter? : Value → Option String
  | .node .parameter (.str name :: _) => some name
  | _ => Option.none

/-- The outline of a subroutine, whose declarations are none. -/
def subroutine? : Value → Option SubroutineOutline
  | .node .subroutine [.str name, .list parameters, .list [], .list body] =>
      (parameters.mapM parameter?).bind fun ps => (outlines? body).map (⟨name, ps, ·⟩)
  | _ => Option.none

/-- **The outline of a syntax tree.** -/
def programOutline? : Value → Option ProgramOutline
  | .node .program [.list classes, .node .algorithm [.list subroutines,
      .node .mainAlgorithm [.list [], .list body]]] =>
      (classes.mapM class?).bind fun cs => (subroutines.mapM subroutine?).bind fun ss =>
        (outlines? body).map (⟨cs, ss, ·⟩)
  | _ => Option.none

end Value

/-! ### Statements -/

open Typing

variable {v : Value}

variable {o : Outline}

/-- What has the outline of a statement is a statement node, or a declaration as it was parsed. -/
theorem Value.cases_of_outline? (h : v.outline? = some o) :
    (v.isStatement = true ∧ o.kind ≠ .declaration) ∨
      ∃ parts, v = .tree (.token "RULE" "declaration") parts ∧ o.kind = .declaration := by
  unfold Value.outline? at h
  split at h
  case h_1 parts =>
    obtain rfl := Option.some.inj h
    exact .inr ⟨parts, rfl, rfl⟩
  case h_3 | h_4 | h_5 | h_6 =>
    obtain ⟨b, -, rfl⟩ := Option.map_eq_some_iff.mp h
    exact .inl ⟨rfl, by simp [Outline.kind]⟩
  case h_7 =>
    obtain ⟨b, -, h⟩ := Option.bind_eq_some_iff.mp h
    obtain ⟨c, -, rfl⟩ := Option.map_eq_some_iff.mp h
    exact .inl ⟨rfl, by simp [Outline.kind]⟩
  case h_11 => cases h
  all_goals
    obtain rfl := Option.some.inj h
    exact .inl ⟨rfl, by simp [Outline.kind]⟩

/-- There are no nodes of another kind among statements. -/
theorem nodesOf_of_outline? {k : Kind} (hk : k.isStatement = false)
    (h : v.outline? = some o) : nodesOf k [v] = [] := by
  rcases Value.cases_of_outline? h with ⟨hstatement, -⟩ | ⟨parts, rfl, -⟩
  · exact nodesOf_of_isStatement hk (forall_mem_singleton.mpr hstatement)
  · rfl

namespace ParseTree

variable {r : Rule} {ts : List ParseTree} {vs : List Value} {t : ParseTree}

theorem build_node_eq_ok_iff : (node r ts).build = .ok v ↔
      ∃ parts, buildAll ts = .ok parts ∧ ofRule r parts = .ok v := by
  rw [build]
  cases buildAll ts with
  | error e => simp
  | ok parts => cases h : ofRule r parts <;> simp [attempt, h]

/-- What is built from the tree of a rule is built from its parts. -/
theorem exists_parts (h : trees.rule r t) (hv : t.build = .ok v) : ∃ ts, t = node r ts ∧
    trees.OfPhrase r.phrase ts ∧ ∃ parts, buildAll ts = .ok parts ∧ ofRule r parts = .ok v := by
  obtain ⟨ts, rfl, hts⟩ := exists_children h
  exact ⟨ts, rfl, hts, build_node_eq_ok_iff.mp hv⟩

theorem buildAll_nil_eq_ok_iff : buildAll [] = .ok vs ↔ vs = [] := by
  rw [buildAll, Except.ok.injEq, eq_comm]

theorem buildAll_singleton_eq_ok_iff : buildAll [t] = .ok vs ↔ ∃ v, t.build = .ok v ∧ vs = [v] := by
  simp only [buildAll_cons_eq_ok_iff, buildAll_nil_eq_ok_iff]
  constructor
  · rintro ⟨v, _, hv, rfl, rfl⟩
    exact ⟨v, hv, rfl⟩
  · rintro ⟨v, hv, rfl⟩
    exact ⟨v, [], hv, rfl, rfl⟩

/-- Whatever is built from a statement has what is left of its outline. -/
def Keeps (t : ParseTree) : Prop :=
  ∀ v, t.build = .ok v → ∃ o, t.outlines = [o] ∧ v.outline? = some o.kept

/-- Whatever is built from a block has what is left of its outline. -/
def KeepsBlock (t : ParseTree) : Prop :=
  ∀ v, t.build = .ok v → ∃ body os, v = .node .block [.list body] ∧ t.blocks = [os] ∧
    Value.outlines? body = some (Outline.keptAll false os)

/-- **Several statements keep their outlines**, with the declarations among them or, if only
    statement nodes are taken, without. -/
theorem outlines?_of_keeps (h : ∀ t ∈ ts, t.Keeps) (hvs : buildAll ts = .ok vs) :
    Value.outlines? vs = some (Outline.keptAll true (outlinesAll ts)) ∧
      Value.outlines? (vs.filter Value.isStatement)
        = some (Outline.keptAll false (outlinesAll ts)) ∧
      ∀ k : Kind, k.isStatement = false → nodesOf k vs = [] := by
  induction ts generalizing vs with
  | nil =>
    obtain rfl := buildAll_nil_eq_ok_iff.mp hvs
    exact ⟨rfl, rfl, fun _ _ => rfl⟩
  | cons t ts ih =>
    obtain ⟨ht, hts⟩ := forall_mem_cons.mp h
    obtain ⟨v, ws, hv, hws, rfl⟩ := buildAll_cons_eq_ok_iff.mp hvs
    obtain ⟨o, ho, hkept⟩ := ht v hv
    obtain ⟨hall, hsome, hnodes⟩ := ih hts hws
    rw [outlinesAll, ho, singleton_append]
    refine ⟨?_, ?_, fun k hk => ?_⟩
    · rw [Value.outlines?, hkept, hall]
      rfl
    · -- declarations are no statement nodes, so the filter takes off what is not kept
      rw [Outline.keptAll, Bool.false_or, ← Outline.kind_kept]
      rcases Value.cases_of_outline? hkept with ⟨hstatement, hkind⟩ | ⟨parts, rfl, hkind⟩
      · rw [filter_cons_of_pos hstatement, if_pos (bne_iff_ne.mpr hkind), Value.outlines?,
          hkept, hsome]
        rfl
      · rw [filter_cons_of_neg (by simp [Value.isStatement]), hkind]
        exact hsome
    · rw [← singleton_append, nodesOf_append, nodesOf_of_outline? hk hkept, hnodes k hk]
      rfl

/-- A block of statements that keep their outlines keeps its own. -/
theorem keepsBlock_of_keeps (h : ∀ t ∈ ts, t.Keeps) : (node .block ts).KeepsBlock := by
  intro v hv
  obtain ⟨parts, hparts, hv⟩ := build_node_eq_ok_iff.mp hv
  obtain rfl := Except.ok.inj hv
  obtain ⟨-, hsome, -⟩ := outlines?_of_keeps h hparts
  exact ⟨_, _, rfl, rfl, hsome⟩

/-! ### Kinds of statements -/

theorem outlinesAll_append (ts us : List ParseTree) :
    outlinesAll (ts ++ us) = outlinesAll ts ++ outlinesAll us := by
  induction ts with
  | nil => rfl
  | cons t ts ih => rw [cons_append, outlinesAll, outlinesAll, ih, append_assoc]

theorem blocks_of_rule (hr : r ≠ .block) (h : trees.rule r t) : t.blocks = [] := by
  obtain ⟨ts, rfl, -⟩ := exists_children h
  rw [blocks]
  simpa using hr

variable {k : Terminal}

theorem blocks_of_token (h : trees.token k t) : t.blocks = [] := by
  obtain ⟨token, rfl, -⟩ := h
  rfl

/-- What is built from a token that stays as it is. -/
theorem build_of_token (hk : ∀ v, k.value v = .ok v) (h : trees.token k t) (hv : t.build = .ok v) :
    ∃ token, t = .leaf token ∧ v = .token k.name token.text := by
  obtain ⟨token, rfl, rfl⟩ := h
  rw [build, hk] at hv
  exact ⟨token, rfl, (Except.ok.inj hv).symm⟩

/-- A statement without a body keeps its kind. -/
theorem keeps_of_no_blocks {k : StatementKind} (hr : (node r ts).outlines = [.mk k (blocksAll ts)])
    (hts : blocksAll ts = [])
    (hk : ∀ parts v, ofRule r parts = .ok v → v.outline? = some (.mk k [])) :
    (node r ts).Keeps := by
  intro v hv
  obtain ⟨parts, -, hv⟩ := build_node_eq_ok_iff.mp hv
  refine ⟨_, hr, ?_⟩
  rw [hts, hk parts v hv]
  rfl

theorem keeps_declaration (h : trees.OfPhrase Rule.declaration.phrase ts) :
    (node .declaration ts).Keeps := by
  refine keeps_of_no_blocks rfl ?_ ?_
  · rcases h with ⟨t, _, rfl, ht, rfl⟩ | ⟨t, _, rfl, ht, rfl⟩
    all_goals rw [blocksAll, blocks_of_rule (by decide) ht, blocksAll, nil_append]
  · intro parts v hv
    obtain rfl := Except.ok.inj hv
    rfl

theorem keeps_assignment (h : trees.OfPhrase Rule.assignment.phrase ts) :
    (node .assignment ts).Keeps := by
  refine keeps_of_no_blocks rfl ?_ ?_
  · obtain ⟨target, _, rfl, htarget, arrow, _, rfl, harrow, value, _, rfl, hvalue, rfl⟩ := h
    simp only [blocksAll, blocks_of_rule (by decide) htarget, blocks_of_token harrow,
      blocks_of_rule (by decide) hvalue, append_nil]
  · intro parts v hv
    obtain ⟨target, -, hv⟩ := bind_eq_ok_iff.mp hv
    dsimp only at hv
    split at hv
    all_goals
      obtain ⟨value, -, rfl⟩ := bind_pure_eq_ok_iff.mp hv
      rfl

theorem keeps_callStatement (h : trees.OfPhrase Rule.callStatement.phrase ts) :
    (node .callStatement ts).Keeps := by
  refine keeps_of_no_blocks rfl ?_ ?_
  · obtain ⟨name, _, rfl, hname, ⟨arguments, _, rfl, harguments, rfl⟩ | rfl⟩ := h
    · simp only [blocksAll, blocks_of_token hname, blocks_of_rule (by decide) harguments,
        append_nil]
    · simp only [blocksAll, blocks_of_token hname, append_nil]
  · intro parts v hv
    obtain ⟨token, -, name, -, rfl⟩ := bind₂_pure_eq_ok_iff.mp hv
    rfl

theorem keeps_returnStatement (h : trees.OfPhrase Rule.returnStatement.phrase ts) :
    (node .returnStatement ts).Keeps := by
  refine keeps_of_no_blocks rfl ?_ ?_
  · obtain ⟨value, _, rfl, hvalue, rfl⟩ := h
    simp only [blocksAll, blocks_of_rule (by decide) hvalue, append_nil]
  · intro parts v hv
    obtain ⟨value, -, rfl⟩ := bind_pure_eq_ok_iff.mp hv
    rfl

theorem keeps_comment (h : trees.OfPhrase Rule.comment.phrase ts) : (node .comment ts).Keeps := by
  refine keeps_of_no_blocks rfl ?_ ?_
  · obtain ⟨text, _, rfl, htext, rfl⟩ := h
    simp only [blocksAll, blocks_of_token htext, append_nil]
  · intro parts v hv
    obtain ⟨token, -, hv⟩ := bind_eq_ok_iff.mp hv
    obtain ⟨value, -, text, -, rfl⟩ := bind₂_pure_eq_ok_iff.mp hv
    rfl

/-- A loop over a range keeps its body: the ends of the range are expressions, so the body is the
    first block among the parts. -/
theorem keeps_forLoop (h : trees.OfPhrase Rule.forLoop.phrase ts)
    (hblocks : ∀ t ∈ ts, trees.rule .block t → t.KeepsBlock) : (node .forLoop ts).Keeps := by
  intro v hv
  obtain ⟨name, _, rfl, hname, arrow, _, rfl, harrow, start, _, rfl, hstart, stop, _, rfl, hstop,
    body, _, rfl, hbody, rfl⟩ := h
  obtain ⟨parts, hparts, hv⟩ := build_node_eq_ok_iff.mp hv
  simp only [buildAll_cons_eq_ok_iff, buildAll_nil_eq_ok_iff] at hparts
  obtain ⟨n, _, hn, ⟨a, _, ha, ⟨x, _, hx, ⟨y, _, hy, ⟨b, _, hb, rfl, rfl⟩, rfl⟩, rfl⟩, rfl⟩,
    rfl⟩ := hparts
  obtain ⟨statements, os, rfl, hos, hkept⟩ := hblocks body (by simp) hbody b hb
  obtain ⟨n, -, rfl⟩ := build_of_token (fun _ => rfl) hname hn
  obtain ⟨a, -, rfl⟩ := build_of_token (fun _ => rfl) harrow ha
  have hloop := forLoop_ok n.text a.text (.list statements) (syntaxTrees_of_build hstart hx).1
    (syntaxTrees_of_build hstop hy).1
  obtain rfl := Except.ok.inj (hloop.symm.trans hv)
  refine ⟨.mk .forLoop [os], ?_, ?_⟩
  · show [Outline.mk .forLoop (blocksAll [name, arrow, start, stop, body])] = _
    simp only [blocksAll, blocks_of_token hname, blocks_of_token harrow,
      blocks_of_rule (by decide) hstart, blocks_of_rule (by decide) hstop, hos, nil_append,
      append_nil]
  · rw [Value.outline?, Value.blockOutlines?, hkept]
    rfl

theorem keeps_whileLoop (h : trees.OfPhrase Rule.whileLoop.phrase ts)
    (hblocks : ∀ t ∈ ts, trees.rule .block t → t.KeepsBlock) : (node .whileLoop ts).Keeps := by
  intro v hv
  obtain ⟨condition, _, rfl, hcondition, body, _, rfl, hbody, rfl⟩ := h
  obtain ⟨parts, hparts, hv⟩ := build_node_eq_ok_iff.mp hv
  simp only [buildAll_cons_eq_ok_iff, buildAll_nil_eq_ok_iff] at hparts
  obtain ⟨c, _, -, ⟨b, _, hb, rfl, rfl⟩, rfl⟩ := hparts
  obtain ⟨statements, os, rfl, hos, hkept⟩ := hblocks body (by simp) hbody b hb
  obtain rfl := Except.ok.inj hv
  refine ⟨.mk .whileLoop [os], ?_, ?_⟩
  · show [Outline.mk .whileLoop (blocksAll [condition, body])] = _
    simp only [blocksAll, blocks_of_rule (by decide) hcondition, hos, nil_append,
      append_nil]
  · rw [Value.outline?, Value.blockOutlines?, hkept]
    rfl

theorem keeps_ifStatement (h : trees.OfPhrase Rule.ifStatement.phrase ts)
    (hblocks : ∀ t ∈ ts, trees.rule .block t → t.KeepsBlock) : (node .ifStatement ts).Keeps := by
  intro v hv
  obtain ⟨parts, hparts, hv⟩ := build_node_eq_ok_iff.mp hv
  obtain ⟨condition, _, rfl, hcondition, body, _, rfl, hbody,
    ⟨otherwise, _, rfl, hotherwise, rfl⟩ | rfl⟩ := h
  · simp only [buildAll_cons_eq_ok_iff, buildAll_nil_eq_ok_iff] at hparts
    obtain ⟨c, _, -, ⟨b, _, hb, ⟨e, _, he, rfl, rfl⟩, rfl⟩, rfl⟩ := hparts
    obtain ⟨statements, os, rfl, hos, hkept⟩ := hblocks body (by simp) hbody b hb
    obtain ⟨statements', os', rfl, hos', hkept'⟩ := hblocks otherwise (by simp) hotherwise e he
    obtain rfl := Except.ok.inj hv
    refine ⟨.mk .ifStatement [os, os'], ?_, ?_⟩
    · show [Outline.mk .ifStatement (blocksAll [condition, body, otherwise])] = _
      simp only [blocksAll, blocks_of_rule (by decide) hcondition, hos, hos', nil_append,
        append_nil, singleton_append]
    · show Value.outline? (.node .ifStatement
        [c, .node .block [.list statements], .node .block [.list statements']]) = _
      rw [Value.outline?, Value.blockOutlines?, Value.blockOutlines?, hkept, hkept']
      · rfl
      · rintro ⟨⟩
  · simp only [buildAll_cons_eq_ok_iff, buildAll_nil_eq_ok_iff] at hparts
    obtain ⟨c, _, -, ⟨b, _, hb, rfl, rfl⟩, rfl⟩ := hparts
    obtain ⟨statements, os, rfl, hos, hkept⟩ := hblocks body (by simp) hbody b hb
    obtain rfl := Except.ok.inj hv
    refine ⟨.mk .ifStatement [os], ?_, ?_⟩
    · show [Outline.mk .ifStatement (blocksAll [condition, body])] = _
      simp only [blocksAll, blocks_of_rule (by decide) hcondition, hos, nil_append,
        append_nil]
    · show Value.outline? (.node .ifStatement [c, .node .block [.list statements], .none]) = _
      rw [Value.outline?, Value.blockOutlines?, hkept]
      rfl

/-- A repeat loop keeps all that stands in its body: only the condition after it is taken off. -/
theorem keeps_repeatLoop (h : trees.OfPhrase Rule.repeatLoop.phrase ts)
    (hstatements : ∀ t ∈ ts, trees.rule .statement t → t.Keeps) : (node .repeatLoop ts).Keeps := by
  intro v hv
  obtain ⟨parts, hparts, hv⟩ := build_node_eq_ok_iff.mp hv
  obtain ⟨body, _, rfl, hbody, condition, _, rfl, hcondition, rfl⟩ := h
  obtain ⟨vs, ws, hvs, hws, rfl⟩ := buildAll_append_eq_ok_iff.mp hparts
  obtain ⟨c, -, rfl⟩ := buildAll_singleton_eq_ok_iff.mp hws
  obtain rfl := Except.ok.inj ((repeatLoop_ok vs c).symm.trans hv)
  have hrules : ∀ t ∈ body, trees.rule .statement t := rule_of_many (.inl hbody) fun _ h => h
  obtain ⟨hkept, -, -⟩ := outlines?_of_keeps
    (fun t ht => hstatements t (mem_append_left _ ht) (hrules t ht)) hvs
  -- the condition is no statement, so it adds nothing to the outline
  obtain ⟨cs, rfl, -⟩ := exists_children hcondition
  refine ⟨.mk .repeatLoop [outlinesAll body], ?_, ?_⟩
  · show [Outline.mk .repeatLoop [outlinesAll (body ++ [node .condition cs])]] = _
    rw [outlinesAll_append]
    show [Outline.mk .repeatLoop [outlinesAll body ++ []]] = _
    rw [append_nil]
  · rw [Value.outline?, hkept]
    rfl

/-! ### Nested statements -/

/-- A statement node has one part, which is a statement of some kind. -/
theorem exists_statement (h : trees.rule .statement t) :
    ∃ r u, t = .node .statement [u] ∧ trees.rule r u ∧ r.isStatementKind = true := by
  obtain ⟨ts, rfl, hts⟩ := exists_children h
  obtain ⟨r, u, rfl, hu⟩ := exists_statement_part hts
  exact ⟨r, u, rfl, hu⟩

/-- The parts of a block are statements. -/
theorem exists_block (h : trees.rule .block t) :
    ∃ ts, t = .node .block ts ∧ ∀ u ∈ ts, trees.rule .statement u := by
  obtain ⟨ts, rfl, hts⟩ := exists_children h
  refine ⟨ts, rfl, ?_⟩
  rcases hts with hts | ⟨u, _, rfl, hu, rfl⟩
  · exact rule_of_many (many_or_eq_nil hts) fun _ h => h
  · exact forall_mem_singleton.mpr hu

theorem Keeps.statement {u : ParseTree} (h : u.Keeps) : (node .statement [u]).Keeps := by
  intro v hv
  obtain ⟨parts, hparts, hv⟩ := build_node_eq_ok_iff.mp hv
  obtain ⟨w, hw, rfl⟩ := buildAll_singleton_eq_ok_iff.mp hparts
  obtain rfl := Except.ok.inj hv
  obtain ⟨o, ho, hkept⟩ := h w hw
  refine ⟨o, ?_, hkept⟩
  rw [outlines, outlinesAll, outlinesAll, ho, append_nil]

theorem sizeOf_lt_of_mem (h : t ∈ ts) : sizeOf t < sizeOf (node r ts) := by
  have hlt := List.sizeOf_lt_of_mem h
  simp only [node.sizeOf_spec]
  omega

/-- **Building from a statement keeps its outline**, for any nesting. -/
theorem keeps_statement (h : trees.rule .statement t) : t.Keeps := by
  -- the statements inside are smaller: in a body of their own, or right in a repeat loop
  induction hn : sizeOf t using Nat.strongRecOn generalizing t with
  | ind n ih =>
    obtain ⟨r, u, rfl, hu, hr⟩ := exists_statement h
    obtain ⟨ts, rfl, hts⟩ := exists_children hu
    have hsize : sizeOf (node r ts) < n := by
      rw [← hn]
      exact sizeOf_lt_of_mem mem_cons_self
    have hstatements : ∀ s ∈ ts, trees.rule .statement s → s.Keeps := by
      intro s hs hrule
      have hlt := sizeOf_lt_of_mem (r := r) hs
      exact ih (sizeOf s) (by omega) hrule rfl
    have hblocks : ∀ b ∈ ts, trees.rule .block b → b.KeepsBlock := by
      intro b hb hrule
      have hlt := sizeOf_lt_of_mem (r := r) hb
      obtain ⟨ss, rfl, hss⟩ := exists_block hrule
      refine keepsBlock_of_keeps fun s hs => ?_
      have hlt' := sizeOf_lt_of_mem (r := .block) hs
      exact ih (sizeOf s) (by omega) (hss s hs) rfl
    refine Keeps.statement ?_
    cases r with
    | declaration => exact keeps_declaration hts
    | assignment => exact keeps_assignment hts
    | forLoop => exact keeps_forLoop hts hblocks
    | whileLoop => exact keeps_whileLoop hts hblocks
    | repeatLoop => exact keeps_repeatLoop hts hstatements
    | ifStatement => exact keeps_ifStatement hts hblocks
    | callStatement => exact keeps_callStatement hts
    | returnStatement => exact keeps_returnStatement hts
    | comment => exact keeps_comment hts
    | _ => cases hr

/-! ### Parts of programs -/

theorem under_append (r : Rule) (ts us : List ParseTree) :
    under r (ts ++ us) = under r ts ++ under r us := flatMap_append

theorem under_node (r : Rule) (ts : List ParseTree) : under r [node r ts] = ts := by
  simp [under]

/-- There is nothing of a rule where all nodes are of another. -/
theorem under_of_rule {s : Rule} (hrs : s ≠ r) (h : ∀ t ∈ ts, trees.rule s t) :
    under r ts = [] := by
  refine flatMap_eq_nil_iff.mpr fun t ht => ?_
  obtain ⟨us, rfl, -⟩ := exists_children (h t ht)
  exact if_neg hrs

/-- Things that are read off parse trees and off the nodes that are built from them, one for
    each. -/
theorem mapM_of_buildAll {β : Type} {f : ParseTree → Option β} {g : Value → Option β} {k : β → β}
    {kind : Kind} (hg : ∀ v b, g v = some b → v.isKind kind = true)
    (h : ∀ t ∈ ts, ∀ v, t.build = .ok v → ∃ b, f t = some b ∧ g v = some (k b))
    (hvs : buildAll ts = .ok vs) :
    vs.mapM g = some ((ts.filterMap f).map k) ∧ ∀ v ∈ vs, v.isKind kind = true := by
  induction ts generalizing vs with
  | nil =>
    obtain rfl := buildAll_nil_eq_ok_iff.mp hvs
    exact ⟨rfl, forall_mem_nil _⟩
  | cons t ts ih =>
    obtain ⟨ht, hts⟩ := forall_mem_cons.mp h
    obtain ⟨v, ws, hv, hws, rfl⟩ := buildAll_cons_eq_ok_iff.mp hvs
    obtain ⟨b, hb, hk⟩ := ht v hv
    obtain ⟨hmapM, hkinds⟩ := ih hts hws
    refine ⟨?_, forall_mem_cons.mpr ⟨hg v _ hk, hkinds⟩⟩
    rw [mapM_cons, hk, hmapM, filterMap_cons_some hb]
    rfl

/-- The names in a list of names. -/
theorem buildAll_names (h : ∀ t ∈ ts, trees.token .cname t) (hvs : buildAll ts = .ok vs) :
    vs = (ts.filterMap word?).map (Value.token "CNAME") := by
  induction ts generalizing vs with
  | nil => exact buildAll_nil_eq_ok_iff.mp hvs
  | cons t ts ih =>
    obtain ⟨ht, hts⟩ := forall_mem_cons.mp h
    obtain ⟨v, ws, hv, hws, rfl⟩ := buildAll_cons_eq_ok_iff.mp hvs
    obtain ⟨token, rfl, rfl⟩ := build_of_token (fun _ => rfl) ht hv
    rw [ih hts hws]
    rfl

end ParseTree

theorem Value.mapM_word? (xs : List String) : (xs.map Value.str).mapM Value.word? = some xs := by
  induction xs with
  | nil => rfl
  | cons x xs ih =>
    rw [map_cons, mapM_cons, ih]
    rfl

theorem Value.isKind_of_class? {c : ClassDefinition} (h : v.class? = some c) :
    v.isKind .classDefinition = true := by
  unfold Value.class? at h
  split at h
  · rfl
  · cases h

theorem Value.isKind_of_parameter? {x : String} (h : v.parameter? = some x) :
    v.isKind .parameter = true := by
  unfold Value.parameter? at h
  split at h
  · rfl
  · cases h

theorem Value.isKind_of_subroutine? {s : SubroutineOutline} (h : v.subroutine? = some s) :
    v.isKind .subroutine = true := by
  unfold Value.subroutine? at h
  split at h
  · rfl
  · cases h

/-- A list of nodes of one kind, among parts. -/
theorem nodesOf_list {k l : Kind} (hkl : k ≠ l) {vs : List Value}
    (h : ∀ v ∈ vs, v.isKind k = true) : nodesOf k [.list vs] = vs ∧ nodesOf l [.list vs] = [] := by
  constructor
  · have hvs : Build.allOf k vs = true := all_eq_true.mpr h
    simp [nodesOf, hvs]
  · cases vs with
    | nil => rfl
    | cons v vs =>
      have hother := isKind_of_isKind hkl (h v mem_cons_self)
      simp [nodesOf, Build.allOf, hother]

namespace ParseTree

variable {t : ParseTree} {v : Value}

/-- **A class** keeps its name and its attributes. -/
theorem class?_of_build (h : trees.rule .classDefinition t) (hv : t.build = .ok v) :
    ∃ c, t.class? = some c ∧ v.class? = some c := by
  obtain ⟨ts, rfl, hts, parts, hparts, hv⟩ := exists_parts h hv
  obtain ⟨name, _, rfl, hname, attributes, _, rfl, hattributes, rfl⟩ := hts
  simp only [buildAll_cons_eq_ok_iff, buildAll_nil_eq_ok_iff] at hparts
  obtain ⟨n, _, hn, ⟨a, _, ha, rfl, rfl⟩, rfl⟩ := hparts
  obtain ⟨n, rfl, rfl⟩ := build_of_token (fun _ => rfl) hname hn
  obtain ⟨ts, rfl, ⟨names, _, rfl, hnames, rfl⟩, parts, hparts, ha⟩ := exists_parts hattributes ha
  have htokens : ∀ t ∈ names, trees.token .cname t := by
    refine forall_of_many ?_ hnames
    rintro _ ⟨t, _, rfl, ht, rfl⟩
    exact forall_mem_singleton.mpr ht
  rw [append_nil] at hparts
  obtain rfl := buildAll_names htokens hparts
  have hlist : ofRule .attributeList ((names.filterMap word?).map (Value.token "CNAME"))
      = .ok (.list ((names.filterMap word?).map .str)) := by
    rw [ofRule, mapM_valueOf_names]
    rfl
  obtain rfl := Except.ok.inj (hlist.symm.trans ha)
  obtain rfl := Except.ok.inj hv
  refine ⟨⟨n.text, names.filterMap word?⟩, ?_, ?_⟩
  · rw [class?, append_nil, under_node]
  · show (((names.filterMap word?).map Value.str).mapM Value.word?).map _ = _
    rw [Value.mapM_word?]
    rfl

/-- A parameter keeps its name. -/
theorem parameter?_of_build (h : trees.rule .parameter t) (hv : t.build = .ok v) :
    ∃ x, t.parameter? = some x ∧ v.parameter? = some x := by
  obtain ⟨ts, rfl, hts, parts, hparts, hv⟩ := exists_parts h hv
  rcases hts with (⟨p, _, rfl, hp, rfl⟩ | ⟨p, _, rfl, hp, rfl⟩) | ⟨p, _, rfl, hp, rfl⟩
  all_goals
    obtain ⟨w, hw, rfl⟩ := buildAll_singleton_eq_ok_iff.mp hparts
    obtain rfl := Except.ok.inj hv
    obtain ⟨ts, rfl, hts, parts, hparts, hw⟩ := exists_parts hp hw
  case inl.inr =>
    obtain ⟨className, _, rfl, hclass, name, _, rfl, hname, rfl⟩ := hts
    simp only [buildAll_cons_eq_ok_iff, buildAll_nil_eq_ok_iff] at hparts
    obtain ⟨c, _, hc, ⟨n, _, hn, rfl, rfl⟩, rfl⟩ := hparts
    obtain ⟨c, rfl, rfl⟩ := build_of_token (fun _ => rfl) hclass hc
    obtain ⟨n, rfl, rfl⟩ := build_of_token (fun _ => rfl) hname hn
    obtain rfl := Except.ok.inj hw
    exact ⟨n.text, rfl, rfl⟩
  all_goals
    obtain ⟨name, _, rfl, hname, -⟩ := hts
    obtain ⟨n, _, hn, -, rfl⟩ := buildAll_cons_eq_ok_iff.mp hparts
    obtain ⟨n, rfl, rfl⟩ := build_of_token (fun _ => rfl) hname hn
    obtain rfl := Except.ok.inj hw
    exact ⟨n.text, rfl, rfl⟩

/-- The parameters of a subroutine, between its name and its statements. -/
theorem parameters_of_buildAll {ts : List ParseTree} {vs : List Value}
    (h : ts = [] ∨ ∃ t, ts = [t] ∧ trees.rule .parameterList t) (hvs : buildAll ts = .ok vs) :
    (parametersOf vs).mapM Value.parameter?
        = some ((under .parameterList ts).filterMap parameter?) ∧
      Build.declarationsOf vs = [] ∧ vs.filter Value.isStatement = [] ∧ outlinesAll ts = [] := by
  rcases h with rfl | ⟨t, rfl, ht⟩
  · obtain rfl := buildAll_nil_eq_ok_iff.mp hvs
    exact ⟨rfl, rfl, rfl, rfl⟩
  · obtain ⟨v, hv, rfl⟩ := buildAll_singleton_eq_ok_iff.mp hvs
    obtain ⟨ps, rfl, hps, parts, hparts, hv⟩ := exists_parts ht hv
    have hrules : ∀ p ∈ ps, trees.rule .parameter p := by
      obtain ⟨p, rest, rfl, hp, hrest⟩ := exists_parts_of_chain hps
      exact forall_mem_cons.mpr ⟨hp, rule_of_many hrest fun _ h => h⟩
    obtain rfl := Except.ok.inj hv
    obtain ⟨hmapM, hkinds⟩ := mapM_of_buildAll (k := id) (fun _ _ => Value.isKind_of_parameter?)
      (fun p hp v hv => parameter?_of_build (hrules p hp) hv) hparts
    obtain ⟨hparameters, hdeclarations⟩ := nodesOf_list (l := .declaration) (by decide) hkinds
    refine ⟨?_, hdeclarations, rfl, rfl⟩
    rw [parametersOf, hparameters, under_node, hmapM, map_id]

/-- **A subroutine** keeps its name, its parameters, and its statements without declarations. -/
theorem subroutine?_of_build (h : trees.rule .subroutineDefinition t) (hv : t.build = .ok v) :
    ∃ s, t.subroutine? = some s ∧ v.subroutine? = some s.kept := by
  obtain ⟨ts, rfl, hts, parts, hparts, hv⟩ := exists_parts h hv
  obtain ⟨name, ps, ss, rfl, hname, hps, hss⟩ := exists_signature hts
  replace hss := rule_of_many hss fun _ h => h
  obtain ⟨n, _, hn, hrest, rfl⟩ := buildAll_cons_eq_ok_iff.mp hparts
  obtain ⟨vs, ws, hvs, hws, rfl⟩ := buildAll_append_eq_ok_iff.mp hrest
  obtain ⟨n, rfl, rfl⟩ := build_of_token (fun _ => rfl) hname hn
  obtain ⟨hmapM, hdeclarations, hstatements, houtlines⟩ := parameters_of_buildAll hps hvs
  obtain ⟨-, hkept, hnodes⟩ := outlines?_of_keeps (fun s hs => keeps_statement (hss s hs)) hws
  -- parameters come in a list of their own, and none is among the statements
  have hsubroutine : ofRule .subroutineDefinition (.token "CNAME" n.text :: (vs ++ ws))
      = .ok (.node .subroutine [.str n.text, .list (parametersOf vs), .list [],
          .list (ws.filter Value.isStatement)]) := by
    have hps' : parametersOf (vs ++ ws) = parametersOf vs := by
      rw [parametersOf, nodesOf_append, hnodes _ rfl, append_nil, parametersOf]
    have hds' : Build.declarationsOf (vs ++ ws) = [] := by
      rw [Build.declarationsOf, nodesOf_append, hnodes _ rfl, append_nil]
      exact hdeclarations
    simp only [ofRule, drop_succ_cons, drop_zero, hps', hds', filter_append,
      hstatements, nil_append]
    rfl
  obtain rfl := Except.ok.inj (hsubroutine.symm.trans hv)
  refine ⟨_, rfl, ?_⟩
  rw [Value.subroutine?, hmapM, hkept, under_append, under_of_rule (by decide) hss,
    append_nil, outlinesAll_append, houtlines, nil_append]
  rfl

/-- The main part of an algorithm keeps its statements without declarations. -/
theorem mainAlgorithm_of_build (h : trees.rule .mainAlgorithm t) (hv : t.build = .ok v) :
    ∃ body, v = .node .mainAlgorithm [.list [], .list body] ∧
      Value.outlines? body
        = some (Outline.keptAll false (outlinesAll (under .mainAlgorithm [t]))) := by
  obtain ⟨ts, rfl, hts, parts, hparts, hv⟩ := exists_parts h hv
  have hrules : ∀ t ∈ ts, trees.rule .statement t :=
    rule_of_many (many_or_eq_nil hts) fun _ h => h
  obtain ⟨-, hkept, hnodes⟩ :=
    outlines?_of_keeps (fun t ht => keeps_statement (hrules t ht)) hparts
  obtain rfl := Except.ok.inj hv
  rw [under_node]
  refine ⟨_, ?_, hkept⟩
  rw [Build.declarationsOf, hnodes _ rfl]

/-- **An algorithm** keeps its subroutines and its main part. -/
theorem algorithm_of_build (h : trees.rule .algorithm t) (hv : t.build = .ok v) :
    ∃ subroutines body, v = .node .algorithm [.list subroutines,
        .node .mainAlgorithm [.list [], .list body]] ∧
      subroutines.mapM Value.subroutine?
        = some (((under .algorithm [t]).filterMap subroutine?).map SubroutineOutline.kept) ∧
      Value.outlines? body = some (Outline.keptAll false
        (outlinesAll (under .mainAlgorithm (under .algorithm [t])))) := by
  obtain ⟨ts, rfl, hts, parts, hparts, hv⟩ := exists_parts h hv
  obtain ⟨ss, m, rfl, hss, hm⟩ := exists_many_append hts
  replace hss := rule_of_many hss fun _ h => h
  obtain ⟨vs, ws, hvs, hws, rfl⟩ := buildAll_append_eq_ok_iff.mp hparts
  obtain ⟨w, hw, rfl⟩ := buildAll_singleton_eq_ok_iff.mp hws
  obtain ⟨body, rfl, hbody⟩ := mainAlgorithm_of_build hm hw
  obtain ⟨hmapM, hkinds⟩ := mapM_of_buildAll (fun _ _ => Value.isKind_of_subroutine?)
    (fun s hs v hv => subroutine?_of_build (hss s hs) hv) hvs
  obtain rfl := Except.ok.inj ((algorithm_ok hkinds _).symm.trans hv)
  obtain ⟨us, rfl, -⟩ := exists_children hm
  refine ⟨vs, body, rfl, ?_, ?_⟩
  · rw [hmapM, under_node, filterMap_append]
    show _ = some ((ss.filterMap subroutine? ++ []).map SubroutineOutline.kept)
    rw [append_nil]
  · rw [hbody, under_node .algorithm, under_append, under_of_rule (by decide) hss,
      nil_append]

end ParseTree

open ParseTree

/-- **Nothing is lost, doubled or moved.**  What is built from the parse tree of a text has the
    outline of that tree, but for the declarations outside of repeat loops. -/
theorem outline_build {text : String} {tree : ParseTree} {v : Value}
    (h : parse text = .ok tree) (hv : tree.build = .ok v) :
    v.programOutline? = some tree.programOutline.kept := by
  obtain ⟨ts, rfl, program, _, rfl, hprogram, rfl⟩ :=
    exists_children (r := .start) (exists_derivation_of_parse h)
  obtain ⟨ts, rfl, hts⟩ := exists_children hprogram
  obtain ⟨cs, a, rfl, hcs, ha⟩ := exists_many_append hts
  replace hcs := rule_of_many hcs fun _ h => h
  obtain ⟨parts, hparts, hv⟩ := build_node_eq_ok_iff.mp hv
  obtain ⟨w, hw, rfl⟩ := buildAll_singleton_eq_ok_iff.mp hparts
  obtain rfl := Except.ok.inj hv
  obtain ⟨parts, hparts, hw⟩ := build_node_eq_ok_iff.mp hw
  obtain ⟨vs, ws, hvs, hws, rfl⟩ := buildAll_append_eq_ok_iff.mp hparts
  obtain ⟨x, hx, rfl⟩ := buildAll_singleton_eq_ok_iff.mp hws
  obtain ⟨subroutines, body, rfl, hsubroutines, hbody⟩ := algorithm_of_build ha hx
  obtain ⟨hclasses, hkinds⟩ := mapM_of_buildAll (k := id) (fun _ _ => Value.isKind_of_class?)
    (fun c hc v hv => class?_of_build (hcs c hc) hv) hvs
  obtain rfl := Except.ok.inj ((program_ok hkinds _).symm.trans hw)
  have houtline : (node .start [node .program (cs ++ [a])]).programOutline =
      { classes := cs.filterMap class?
        subroutines := (under .algorithm [a]).filterMap subroutine?
        body := outlinesAll (under .mainAlgorithm (under .algorithm [a])) } := by
    have hclass : a.class? = none := by
      obtain ⟨us, rfl, -⟩ := exists_children ha
      rfl
    unfold programOutline
    simp only [under_node, under_append, under_of_rule (r := .algorithm) (by decide) hcs,
      List.nil_append, List.filterMap_append, List.filterMap_cons_none hclass, List.filterMap_nil,
      List.append_nil]
  rw [houtline, Value.programOutline?, hclasses, hsubroutines, hbody, List.map_id]
  rfl

/-- A declaration in a repeat loop stays, and one in a block does not. -/
theorem outline_build_declarations :
    ∃ tree v, parse "f(n) begin repeat a[2] until (n) end begin while (x) do b[1] end" = .ok tree ∧
      tree.build = .ok v ∧ v.programOutline? = some
        { classes := []
          subroutines := [⟨"f", ["n"], [.mk .repeatLoop [[.mk .declaration []]]]⟩]
          body := [.mk .whileLoop [[]]] } := by
  have houtline :
      (parse "f(n) begin repeat a[2] until (n) end begin while (x) do b[1] end").toOption.any
        (fun tree => tree.build.toOption.any fun _ => tree.programOutline.kept =
        { classes := []
          subroutines := [⟨"f", ["n"], [.mk .repeatLoop [[.mk .declaration []]]]⟩]
          body := [.mk .whileLoop [[]]] }) = true := by
    decide +kernel
  obtain ⟨tree, hparse, houtline⟩ := exists_eq_ok_of_any houtline
  obtain ⟨v, hv, houtline⟩ := exists_eq_ok_of_any houtline
  refine ⟨tree, v, hparse, hv, ?_⟩
  rw [outline_build hparse hv, of_decide_eq_true houtline]

end Ordo
