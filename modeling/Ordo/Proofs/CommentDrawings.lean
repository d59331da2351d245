import Ordo.Proofs.Uncommented

namespace Ordo

/-!
# Comments in charts

Comments get no nodes, but whether a body is empty, and whether a branch ends in a return, is told
from all statements of it.  The nodes of a chart keep their numbers when comments are deleted,
while some lines may change.  The chart and the one without comments are then compared line by
line: their texts are the same up to a line where they part, whatever follows it.

* `Flowchart.Clash` — lines whose texts cannot begin the same text;
* `Flowchart.Parts` — lists of lines that are the same up to such lines;
* `Flowchart.agrees_drawBody` — what a body and the body without comments have in common;
* `Flowchart.render_uncommented_eq_iff` — when deleting comments keeps the chart.
-/

open List

open Stmt (uncommentedAll isComment uncommented endsTerminal)

namespace Flowchart

/-! ### Lines whose texts part -/

/-- The node that a line begins with. -/
def Line.head : Line → NodeId
  | .node id _ _ => id
  | .edge source _ _ => source

/-- The texts of two lines cannot begin the same text. -/
def Clash (l l' : Line) : Prop :=
  ∀ rest rest', l.render.toList ++ rest ≠ l'.render.toList ++ rest'

variable (title : String) (kind : NodeKind)

theorem NodeKind.all_isAlphanum_mark : kind.mark.toList.all Char.isAlphanum = true := by
  cases kind <;> decide +kernel

variable {id : NodeId} {n m : Nat} {s : Stmt}

theorem NodeId.isAlphanum_of_mem_name {c : Char} (hc : c ∈ id.name.toList) :
    c.isAlphanum = true := by
  have hletters : id.letters.toList.all Char.isAlphanum = true := by
    cases id with
    | step kind number => exact kind.all_isAlphanum_mark
    | _ => decide +kernel
  rw [toList_name, mem_append] at hc
  rcases hc with hc | hc
  · exact all_eq_true.mp hletters c hc
  · have hdigit : c.isDigit = true := by simpa using isDigit_of_mem_number hc
    rw [Char.isAlphanum, hdigit, Bool.or_true]

/-- A line begins with the name of its node, which ends where it does. -/
theorem Line.exists_toList_render (l : Line) :
    ∃ c rest, l.render.toList = "    ".toList ++ (l.head.name.toList ++ c :: rest) ∧
      c.isAlphanum = false := by
  cases l with
  | node id shape label =>
    cases shape with
    | round => exact ⟨'(', _, by simp [render, Shape.around, head]; rfl, by decide⟩
    | box => exact ⟨'[', _, by simp [render, Shape.around, head]; rfl, by decide⟩
    | decision => exact ⟨'\x7b', _, by simp [render, Shape.around, head]; rfl, by decide⟩
  | edge source label target =>
    cases label with
    | none | some label => exact ⟨' ', _, by simp [render, head]; rfl, by decide⟩

variable {l : Line} {previous : Option NodeId} {body : List Stmt}

attribute [local simp] drawBody Line.head drawStmt

/-- Lines that begin with different nodes clash. -/
theorem clash_of_head_ne {l' : Line} (h : l.head ≠ l'.head) : Clash l l' := by
  intro rest rest' htext
  obtain ⟨c, more, hl, hc⟩ := l.exists_toList_render
  obtain ⟨c', more', hl', hc'⟩ := l'.exists_toList_render
  have hname : ∀ (id : NodeId) {c : Char} (cs : List Char), c.isAlphanum = false →
      (id.name.toList ++ c :: cs).takeWhile Char.isAlphanum = id.name.toList := by
    intro id c cs hc
    rw [takeWhile_append_of_pos fun c hc => NodeId.isAlphanum_of_mem_name hc,
      takeWhile_cons, hc, if_neg Bool.false_ne_true, append_nil]
  simp only [hl, hl', append_assoc, cons_append] at htext
  have heq := congrArg (takeWhile Char.isAlphanum) (append_cancel_left htext)
  rw [hname _ _ hc, hname _ _ hc', String.toList_inj] at heq
  exact h (NodeId.name_injective heq)

/-- A node has a number after `n` up to `m`. -/
def NodeId.Between (n m : Nat) (id : NodeId) : Prop :=
  ∃ kind i, id = .step kind i ∧ n < i ∧ i ≤ m

theorem NodeId.not_between_step {i : Nat} (h : i ≤ n ∨ m < i) :
    ¬ (NodeId.step kind i).Between n m := by
  rintro ⟨kind', j, heq, hlow, hhigh⟩
  obtain ⟨-, rfl⟩ := NodeId.step.inj heq
  omega

/-- Lists of lines that part: up to some place they are the same, and there either two lines
    clash, or the first list ends, and the second goes on with a node that has a number after `n`
    up to `m`. -/
inductive Parts (n m : Nat) : List Line → List Line → Prop
  | clash {l l' : Line} (h : Clash l l') (lines lines' : List Line) :
      Parts n m (l :: lines) (l' :: lines')
  | short {l : Line} (h : l.head.Between n m) (lines : List Line) : Parts n m [] (l :: lines)
  | next (l : Line) {lines lines' : List Line} (h : Parts n m lines lines') :
      Parts n m (l :: lines) (l :: lines')

/-- If there is a first line, it does not begin with a node with a number after `n` up to `m`. -/
def Avoids (n m : Nat) (lines : List Line) : Prop := ∀ l ∈ lines.head?, ¬ l.head.Between n m

namespace Parts

variable {n m : Nat}

variable {lines lines' : List Line}

theorem mono {n' m' : Nat} (h : Parts n m lines lines') (hn : n' ≤ n)
    (hm : m ≤ m') : Parts n' m' lines lines' := by
  induction h with
  | clash h lines lines' => exact .clash h lines lines'
  | short h lines =>
    obtain ⟨kind, i, heq, hlow, hhigh⟩ := h
    exact .short ⟨kind, i, heq, by omega, by omega⟩ lines
  | next l _ ih => exact .next l ih

theorem after (before : List Line) (h : Parts n m lines lines') :
    Parts n m (before ++ lines) (before ++ lines') := by
  induction before with
  | nil => exact h
  | cons l before ih => exact .next l ih

/-- Lists that part do so whatever follows, unless the first goes on as the second. -/
theorem append {more : List Line} (h : Parts n m lines lines')
    (hmore : Avoids n m more) (more' : List Line) :
    Parts n m (lines ++ more) (lines' ++ more') := by
  induction h with
  | clash h lines lines' => exact .clash h _ _
  | next l _ ih => exact .next l ih
  | short h lines =>
    cases more with
    | nil => exact .short h _
    | cons l more =>
      refine .clash (clash_of_head_ne ?_) _ _
      rintro heq
      exact hmore l rfl (heq ▸ h)

/-- **Charts that part have different texts.** -/
theorem render_ne {f f' : Flowchart} (h : Parts n m f.lines f'.lines) : f.render ≠ f'.render := by
  have hlines : ∀ {lines lines' : List Line}, Parts n m lines lines' →
      (lines.flatMap fun l => '\n' :: l.render.toList)
        ≠ lines'.flatMap fun l => '\n' :: l.render.toList := by
    intro lines lines' h
    induction h with
    | clash h lines lines' => simpa using h _ _
    | short h lines => simp
    | next l _ ih => simpa using ih
  intro hrender
  have htext := congrArg String.toList hrender
  rw [toList_render, toList_render] at htext
  exact hlines h (append_cancel_left htext)

end Parts

/-! ### Drawings with and without comments -/

/-- Lists of lines that are the same unless comments show, and otherwise part. -/
def Tells (shown : Prop) (n m : Nat) (lines lines' : List Line) : Prop :=
  ¬ shown ∧ lines = lines' ∨ shown ∧ Parts n m lines lines'

namespace Tells

variable {shown : Prop} {n m : Nat} {lines lines' : List Line}

theorem same (h : ¬ shown) (n m : Nat) (lines : List Line) : Tells shown n m lines lines :=
  .inl ⟨h, rfl⟩

variable {m' n' : Nat} {shown' : Prop}

theorem mono (h : Tells shown n m lines lines') (hn : n' ≤ n) (hm : m ≤ m') :
    Tells shown n' m' lines lines' :=
  h.imp_right fun ⟨hshown, hparts⟩ => ⟨hshown, hparts.mono hn hm⟩

theorem congr (h : Tells shown n m lines lines') (hiff : shown' ↔ shown) :
    Tells shown' n m lines lines' :=
  propext hiff ▸ h

theorem after (before : List Line) (h : Tells shown n m lines lines') :
    Tells shown n m (before ++ lines) (before ++ lines') := by
  rcases h with ⟨hshown, rfl⟩ | ⟨hshown, hparts⟩
  · exact same hshown ..
  · exact .inr ⟨hshown, hparts.after before⟩

/-- Comments show in two lists if they do in one of them. -/
theorem append {more more' : List Line}
    (h : Tells shown n m lines lines') (hmore : Tells shown' n' m' more more')
    (havoids : Avoids n m more) (hn : n ≤ n') (hm : m ≤ m') :
    Tells (shown ∨ shown') n m' (lines ++ more) (lines' ++ more') := by
  rcases h with ⟨hshown, rfl⟩ | ⟨hshown, hparts⟩
  · exact ((hmore.after lines).mono hn (Nat.le_refl m')).congr (by simp [hshown])
  · exact .inr ⟨.inl hshown, (hparts.append havoids more').mono (Nat.le_refl n) hm⟩

theorem before {more : List Line} (h : Tells shown n m lines lines') (havoids : Avoids n m more) :
    Tells shown n m (lines ++ more) (lines' ++ more) :=
  (h.append (same not_false n m more) havoids (Nat.le_refl n) (Nat.le_refl m)).congr (by simp)

end Tells

/-- Two drawings take the same numbers, and have the same lines unless comments show. -/
structure Agrees {α : Type} (shown : Prop) (n : Nat) (d d' : Drawn α) : Prop where
  result : d'.result = d.result
  count : d'.count = d.count
  lines : Tells shown n d.count d.lines d'.lines

theorem Agrees.same {α : Type} {shown : Prop} (h : ¬ shown) (n : Nat) (d : Drawn α) :
    Agrees shown n d d :=
  ⟨rfl, rfl, .same h ..⟩

/-- All lines of a drawn statement begin with nodes of its own. -/
theorem between_of_mem_drawStmt (h : l ∈ (drawStmt n s).lines) :
    l.head.Between n (drawStmt n s).count := by
  have hjoins := (joins_drawStmt n s).1
  refine hjoins.numbered.exists_step ?_
  cases l with
  | node id shape label => exact mem_filterMap.mpr ⟨_, h, rfl⟩
  | edge source label target =>
    have hedge : (source, target) ∈ edges (drawStmt n s).lines := mem_filterMap.mpr ⟨_, h, rfl⟩
    exact (hjoins.sources _ hedge).resolve_right (by simp)

theorem count_le_drawStmt (n : Nat) (s : Stmt) : n ≤ (drawStmt n s).count :=
  (joins_drawStmt n s).1.numbered.le

theorem count_le_drawBody (n : Nat) (previous : Option NodeId) (body : List Stmt) :
    n ≤ (drawBody n previous body).count :=
  (joins_drawBody n previous body).1.numbered.le

theorem lines_ne_nil_of_result (h : (drawStmt n s).result = some id) :
    (drawStmt n s).lines ≠ [] := by
  intro hnil
  have hid := (joins_drawStmt n s).2 id h
  rw [hnil] at hid
  simp at hid

/-- The first line of a drawn body begins with a node of its own. -/
theorem between_of_mem_head?_drawBody (h : l ∈ (drawBody n previous body).lines.head?) :
    l.head.Between n (drawBody n previous body).count := by
  induction body generalizing n previous with
  | nil => simp at h
  | cons s body ih =>
    cases hd : (drawStmt n s).result with
    | none =>
      obtain ⟨text, rfl⟩ := eq_comment_of_eq_none hd
      simpa using ih (by simpa using h)
    | some id =>
      have hcount := count_le_drawBody (drawStmt n s).count (some id) body
      simp only [drawBody, hd, append_assoc] at h ⊢
      rw [head?_append_of_ne_nil _ (lines_ne_nil_of_result hd)] at h
      obtain ⟨kind, i, heq, hlow, hhigh⟩ := between_of_mem_drawStmt (mem_of_mem_head? h)
      exact ⟨kind, i, heq, hlow, by omega⟩

theorem between_last_drawBody (n : Nat) (body : List Stmt) :
    ∀ id ∈ (drawBody n none body).result.last, id.Between n (drawBody n none body).count := by
  intro id hid
  obtain ⟨hjoins, -, hlast⟩ := joins_drawBody n none body
  exact hjoins.numbered.exists_step ((hlast id hid).resolve_right (by simp))

theorem NodeId.Between.not_between {l : Nat} (h : id.Between m l) : ¬ id.Between n m := by
  obtain ⟨kind, i, rfl, hlow, -⟩ := h
  exact not_between_step kind (.inr hlow)

theorem NodeId.Between.not_between_after {l : Nat} (h : id.Between n m) : ¬ id.Between m l := by
  obtain ⟨kind, i, rfl, -, hhigh⟩ := h
  exact not_between_step kind (.inl hhigh)

theorem avoids_drawBody (n m : Nat) (previous : Option NodeId) (body : List Stmt) :
    Avoids n m (drawBody m previous body).lines :=
  fun _ hl => (between_of_mem_head?_drawBody hl).not_between

theorem avoids_branchLines (h : ¬ id.Between n m) (word : String) (ends : Ends) (terminal : Bool) :
    Avoids n m (branchLines id word ends terminal) := by
  unfold branchLines
  split
  · rintro l ⟨⟩
    exact h
  · simp [Avoids]

theorem avoids_linkFrom (h : ∀ p ∈ previous, ¬ p.Between n m)
    (id : NodeId) : Avoids n m (linkFrom previous id) := by
  cases previous with
  | none => simp [linkFrom, Avoids]
  | some p =>
    rintro l ⟨⟩
    exact h p rfl

/-- The edges of a branch change if comments hide its return. -/
theorem tells_branchLines (id : NodeId) (word : String) (n : Nat) (branch : List Stmt) :
    Tells (Stmt.losesReturn branch = true) n (drawBody n none branch).count
      (branchLines id word (drawBody n none branch).result (endsTerminal branch))
      (branchLines id word (drawBody n none branch).result
        (endsTerminal (uncommentedAll branch))) := by
  cases hloses : Stmt.losesReturn branch with
  | false =>
    rw [Stmt.losesReturn_eq_false_iff.mp hloses]
    exact .same Bool.false_ne_true ..
  | true =>
    obtain ⟨hends, hplain⟩ : endsTerminal branch = false ∧
        endsTerminal (uncommentedAll branch) = true := by
      simpa [Stmt.losesReturn] using hloses
    -- something is left without the comments, so that there are nodes
    have hall : branch.all isComment = false := by
      rw [Bool.eq_false_iff, ne_eq, ← Stmt.uncommentedAll_eq_nil_iff]
      intro hnil
      simp [hnil, endsTerminal] at hplain
    obtain ⟨first, hfirst⟩ : ∃ first, (drawBody n none branch).result.first = some first := by
      rw [← Option.ne_none_iff_exists', ne_eq, ← Option.isNone_iff_eq_none, isNone_first_drawBody,
        hall]
      exact Bool.false_ne_true
    obtain ⟨last, hlast⟩ : ∃ last, (drawBody n none branch).result.last = some last := by
      rw [← Option.isSome_iff_exists, isSome_last_drawBody, hall]
      rfl
    rw [hends, hplain, branchLines, branchLines, hfirst, hlast]
    exact .inr ⟨rfl, .next _ (.short (between_last_drawBody n branch last hlast) [])⟩

/-- A box with the sign of a repeat loop is no decision. -/
theorem clash_repeatLoop (i : Nat) (label label' : Label) :
    Clash (.node (.step .repeatLoop i) .decision label)
      (.node (.step .repeatLoop i) .box label') := by
  intro rest rest'
  simp [Line.render, Shape.around]

theorem drawBody_comment_cons (n : Nat) (previous : Option NodeId) (h : s.isComment = true)
    (body : List Stmt) : drawBody n previous (s :: body) = drawBody n previous body := by
  cases s <;> simp only [isComment, Bool.false_eq_true] at h
  rw [drawBody, drawStmt]
  rfl

theorem exists_result_drawStmt (h : s.isComment = false) (n : Nat) :
    ∃ id, (drawStmt n s).result = some id ∧ id.Between n (drawStmt n s).count := by
  obtain ⟨id, hid⟩ := Option.isSome_iff_exists.mp
    ((isSome_result_drawStmt n s).trans (congrArg not h))
  obtain ⟨hs, hresult⟩ := joins_drawStmt n s
  exact ⟨id, hid, hs.numbered.exists_step (hresult id hid)⟩

open Stmt (Shows ShowsIn)

mutual

/-- **A statement with and without comments** takes the same numbers, and the lines part where
    comments show. -/
theorem agrees_drawStmt (n : Nat) (s : Stmt) :
    Agrees s.Shows n (drawStmt n s) (drawStmt n s.uncommented) := by
  cases s with
  | ifThen condition body =>
    have hbody := agrees_drawBody (n + 1) none body (by simp)
    have hid : ¬ (NodeId.step .conditional (n + 1)).Between (n + 1)
        (drawBody (n + 1) none body).count := NodeId.not_between_step _ (.inl (Nat.le_refl _))
    have hlines := hbody.lines.append (tells_branchLines (.step .conditional (n + 1)) "True" (n + 1)
      body) (avoids_branchLines hid _ _ _) (Nat.le_refl _) (Nat.le_refl _)
    rw [uncommented, drawStmt, drawStmt, hbody.result]
    exact ⟨rfl, hbody.count, ((hlines.after [_]).mono (Nat.le_succ n) (Nat.le_refl _)).congr
      (Stmt.shows_ifThen ..)⟩
  | ifElse condition body otherwise =>
    have hbody := agrees_drawBody (n + 1) none body (by simp)
    have hother := agrees_drawBody (drawBody (n + 1) none body).count none otherwise (by simp)
    have hcount := count_le_drawBody (n + 1) none body
    have hcount' := count_le_drawBody (drawBody (n + 1) none body).count none otherwise
    have hid : ∀ m, ¬ (NodeId.step .conditional (n + 1)).Between (n + 1) m :=
      fun m => NodeId.not_between_step _ (.inl (Nat.le_refl _))
    have hlines := hbody.lines.append (tells_branchLines (.step .conditional (n + 1)) "True" (n + 1)
      body) (avoids_branchLines (hid _) _ _ _) (Nat.le_refl _) (Nat.le_refl _)
    have hlines' := (hlines.append hother.lines (avoids_drawBody _ _ _ _) hcount hcount').append
      (tells_branchLines (.step .conditional (n + 1)) "False" _ otherwise)
      (avoids_branchLines (hid _) _ _ _) hcount (Nat.le_refl _)
    rw [uncommented, drawStmt, drawStmt, hbody.result, hbody.count, hother.result]
    exact ⟨rfl, hother.count, ((hlines'.after [_]).mono (Nat.le_succ n) (Nat.le_refl _)).congr
      (Stmt.shows_ifElse ..)⟩
  | forLoop name start stop body =>
    have hbody := agrees_drawBody (n + 1) none body (by simp)
    have hshown := Stmt.shows_forLoop name start stop body
    rw [uncommented, drawStmt, drawStmt, hbody.result, hbody.count]
    split
    · refine ⟨rfl, rfl, ?_⟩
      refine (((hbody.lines.before ?_).after [_]).mono (Nat.le_succ n) (Nat.le_succ _)).congr hshown
      rintro l ⟨⟩
      exact NodeId.not_between_step _ (.inr (Nat.lt_succ_self _))
    · exact ⟨rfl, rfl, ((hbody.lines.after [_]).mono (Nat.le_succ n) (Nat.le_refl _)).congr hshown⟩
  | whileLoop condition body =>
    have hbody := agrees_drawBody (n + 1) none body (by simp)
    have hshown := Stmt.shows_whileLoop condition body
    rw [uncommented, drawStmt, drawStmt, hbody.result, hbody.count]
    split
    · refine ⟨rfl, rfl, ?_⟩
      refine (((hbody.lines.before ?_).after [_]).mono (Nat.le_succ n) (Nat.le_refl _)).congr hshown
      rintro l ⟨⟩
      exact NodeId.not_between_step _ (.inl (Nat.le_refl _))
    · exact ⟨rfl, rfl, ((hbody.lines.after [_]).mono (Nat.le_succ n) (Nat.le_refl _)).congr hshown⟩
  | repeatLoop body condition =>
    cases body with
    | nil =>
      exact .same (by simp [Stmt.shows_repeatLoop, Stmt.not_showsIn_nil]) ..
    | cons s ss =>
      have hbody := agrees_drawBody n none (s :: ss) (by simp)
      cases hall : (s :: ss).all isComment with
      | true =>
        have hnil := Stmt.uncommentedAll_eq_nil_iff.mpr hall
        have hdrawn := drawBody_of_comments hall n none
        rw [uncommented, hnil, drawStmt, drawStmt, hdrawn]
        refine ⟨rfl, rfl, .inr ⟨?_, .clash (clash_repeatLoop _ _ _) _ _⟩⟩
        exact (Stmt.shows_repeatLoop ..).mpr (.inl ⟨by simp, hall⟩)
      | false =>
        have hshown : Shows (.repeatLoop (s :: ss) condition) ↔ ShowsIn (s :: ss) := by
          simp [Stmt.shows_repeatLoop, hall]
        obtain ⟨t, ts, hplain⟩ := Stmt.exists_uncommentedAll_eq_cons hall
        rw [uncommented, hplain, drawStmt, drawStmt, ← hplain, hbody.result, hbody.count]
        refine ⟨rfl, rfl, ?_⟩
        simp only [append_assoc]
        refine ((hbody.lines.before ?_).mono (Nat.le_refl n) (Nat.le_succ _)).congr hshown
        rintro l ⟨⟩
        exact NodeId.not_between_step _ (.inr (Nat.lt_succ_self _))
  | _ => exact .same (by simp [Shows, Stmt.isMarred, Stmt.isHollow, Stmt.branches, Stmt.bodies]) ..

/-- The same for several statements after a previous node. -/
theorem agrees_drawBody (n : Nat) (previous : Option NodeId) (body : List Stmt)
    (hprevious : ∀ p ∈ previous, ∀ m, ¬ p.Between n m) :
    Agrees (ShowsIn body) n (drawBody n previous body)
      (drawBody n previous (uncommentedAll body)) := by
  cases body with
  | nil => exact .same Stmt.not_showsIn_nil ..
  | cons s body =>
    cases hcomment : s.isComment with
    | true =>
      have hrest := agrees_drawBody n previous body hprevious
      rw [drawBody_comment_cons n previous hcomment, Stmt.uncommentedAll_cons_of_comment hcomment]
      refine ⟨hrest.result, hrest.count, hrest.lines.congr ?_⟩
      simp [Stmt.showsIn_cons, Stmt.not_shows_of_isComment hcomment]
    | false =>
      obtain ⟨id, hid, hbetween⟩ := exists_result_drawStmt hcomment n
      have hs := agrees_drawStmt n s
      have hrest := agrees_drawBody (drawStmt n s).count (some id) body
        (by rintro p ⟨⟩ m; exact hbetween.not_between_after)
      have hcount := count_le_drawStmt n s
      have hcount' := count_le_drawBody (drawStmt n s).count (some id) body
      rw [Stmt.uncommentedAll_cons_of_not_comment hcomment, drawBody, drawBody, hs.result, hs.count]
      simp only [hid]
      refine ⟨by rw [hrest.result], hrest.count, ?_⟩
      have hlinked := hs.lines.before (avoids_linkFrom (fun p hp => hprevious p hp _) id)
      exact (hlinked.append hrest.lines (avoids_drawBody _ _ _ _) hcount hcount').congr
        (Stmt.showsIn_cons s body)

end

/-! ### Whole bodies -/

/-- A whole body takes the numbers that it takes inside another statement. -/
theorem drawAfter_eq_drawBody (n : Nat) (previous : Option (NodeId × Stmt))
    (before : Option NodeId) (body : List Stmt) :
    (drawAfter n previous body).result = (drawBody n before body).result.first ∧
      (drawAfter n previous body).count = (drawBody n before body).count := by
  induction body generalizing n previous before with
  | nil => simp [drawAfter]
  | cons s body ih =>
    cases hd : (drawStmt n s).result with
    | none =>
      simp only [drawAfter, drawBody, hd]
      exact ih (drawStmt n s).count previous before
    | some id =>
      rw [drawAfter_of_eq_some hd, drawBody, hd]
      exact ⟨rfl, (ih (drawStmt n s).count (some (id, s)) (some id)).2⟩

/-- The first line of a whole body begins with a node of its own or the end. -/
theorem avoids_drawAfter (n m : Nat) (previous : Option (NodeId × Stmt)) (body : List Stmt) :
    Avoids n m (drawAfter m previous body).lines := by
  induction body with
  | nil =>
    rintro l ⟨⟩ ⟨kind, i, heq, -⟩
    cases heq
  | cons s body ih =>
    cases hd : (drawStmt m s).result with
    | none =>
      obtain ⟨text, rfl⟩ := eq_comment_of_eq_none hd
      simpa [drawAfter] using ih
    | some id =>
      simp only [drawAfter_of_eq_some hd, append_assoc]
      intro l hl
      rw [head?_append_of_ne_nil _ (lines_ne_nil_of_result hd)] at hl
      exact (between_of_mem_drawStmt (mem_of_mem_head? hl)).not_between

theorem count_le_drawAfter (n : Nat) (previous : Option (NodeId × Stmt)) (body : List Stmt) :
    n ≤ (drawAfter n previous body).count :=
  (drawAfter_eq_drawBody n previous none body).2 ▸ count_le_drawBody n none body

theorem Avoids.append {lines more : List Line} (h : Avoids n m lines) (hmore : Avoids n m more) :
    Avoids n m (lines ++ more) := by
  cases lines with
  | nil => exact hmore
  | cons l lines => exact h

theorem avoids_exitsFrom {previous : Option (NodeId × Stmt)} (h : ∀ p ∈ previous, ¬ p.1.Between n m)
    (id : NodeId) : Avoids n m (exitsFrom previous id) := by
  cases previous with
  | none => simp [exitsFrom, Avoids]
  | some p =>
    have hhead : ∀ l ∈ exitLines p.1 p.2 id, l.head = p.1 := by
      unfold exitLines
      split
      · simp
      · simp [Line.branch]
      · simp [Line.branch]
      · simp
      · split <;> simp [Line.link]
    intro l hl
    rw [hhead l (mem_of_mem_head? hl)]
    exact h p rfl

theorem exitLines_uncommented (h : ¬ s.Shows) (id next : NodeId) :
    exitLines id s.uncommented next = exitLines id s next := by
  have hterminal := Stmt.isTerminal_uncommented_eq h
  cases s with
  | ifElse condition body otherwise =>
    show (if Stmt.isTerminal _ then _ else _) = if Stmt.isTerminal _ then _ else _
    rw [hterminal]
  | _ => rfl

theorem endLines_uncommented (h : ¬ s.Shows) (id : NodeId) :
    endLines id s.uncommented = endLines id s := by
  cases s with
  | ifElse condition body otherwise => exact exitLines_uncommented h id .stop
  | _ => rfl

theorem exitsFrom_uncommented {previous : Option (NodeId × Stmt)}
    (h : ∀ p ∈ previous, ¬ p.2.Shows) (id : NodeId) :
    exitsFrom (previous.map fun p => (p.1, p.2.uncommented)) id = exitsFrom previous id := by
  cases previous with
  | none => rfl
  | some p => exact exitLines_uncommented (h p rfl) p.1 id

theorem drawAfter_comment_cons (n : Nat) (previous : Option (NodeId × Stmt))
    (h : s.isComment = true) (body : List Stmt) :
    drawAfter n previous (s :: body) = drawAfter n previous body := by
  cases s <;> simp only [isComment, Bool.false_eq_true] at h
  rw [drawAfter, drawStmt]
  rfl

/-- A whole body is left in the same way, unless comments show. -/
theorem tells_drawAfter (n : Nat) (previous : Option (NodeId × Stmt)) (body : List Stmt)
    (hprevious : ∀ p ∈ previous, ¬ p.2.Shows ∧ ∀ m, ¬ p.1.Between n m) :
    Tells (ShowsIn body) n (drawAfter n previous body).count (drawAfter n previous body).lines
      (drawAfter n (previous.map fun p => (p.1, p.2.uncommented)) (uncommentedAll body)).lines := by
  induction body generalizing n previous with
  | nil =>
    cases previous with
    | none => exact .same Stmt.not_showsIn_nil ..
    | some p =>
      have hend := endLines_uncommented (hprevious p rfl).1 p.1
      refine .inl ⟨Stmt.not_showsIn_nil, ?_⟩
      show endNode :: endLines p.1 p.2 = endNode :: endLines p.1 p.2.uncommented
      rw [hend]
  | cons s body ih =>
    rw [Stmt.showsIn_cons]
    cases hcomment : s.isComment with
    | true =>
      rw [drawAfter_comment_cons n previous hcomment, Stmt.uncommentedAll_cons_of_comment hcomment]
      exact (ih n previous hprevious).congr (or_iff_right (Stmt.not_shows_of_isComment hcomment))
    | false =>
      obtain ⟨id, hid, hbetween⟩ := exists_result_drawStmt hcomment n
      have hs := agrees_drawStmt n s
      have hcount := count_le_drawAfter (drawStmt n s).count (some (id, s)) body
      rw [Stmt.uncommentedAll_cons_of_not_comment hcomment,
        drawAfter_of_eq_some (hs.result.trans hid), drawAfter_of_eq_some hid,
        exitsFrom_uncommented (fun p hp => (hprevious p hp).1), hs.count]
      simp only [append_assoc]
      rcases hs.lines with ⟨hshown, hlines⟩ | ⟨hshown, hparts⟩
      · have hrest := ih (drawStmt n s).count (some (id, s)) (by
          rintro p ⟨⟩
          exact ⟨hshown, fun m => hbetween.not_between_after⟩)
        rw [← hlines]
        exact (((hrest.after _).after _).mono (count_le_drawStmt n s) (Nat.le_refl _)).congr
          (or_iff_right hshown)
      · refine .inr ⟨.inl hshown, (hparts.append ?_ _).mono (Nat.le_refl n) hcount⟩
        exact (avoids_exitsFrom (fun p hp => (hprevious p hp).2 _) id).append
          (avoids_drawAfter _ _ _ _)

/-- Nothing is drawn of comments. -/
theorem drawAfter_of_comments (h : body.all isComment = true) (n : Nat)
    (previous : Option (NodeId × Stmt)) : drawAfter n previous body = drawAfter n previous [] := by
  induction body with
  | nil => rfl
  | cons s body ih =>
    rw [all_cons, Bool.and_eq_true] at h
    rw [drawAfter_comment_cons n previous h.1, ih h.2]

/-- The edge from the start leads to the end, or nowhere. -/
theorem clash_start : Clash (.edge .start none none) (.edge .start none (some .stop)) := by
  intro rest rest'
  simp [Line.render, targetName, NodeId.name]

/-- **When deleting comments keeps a chart**: unless they are all there is, and do not show. -/
theorem tells_ofBody (body : List Stmt) :
    Tells ((body ≠ [] ∧ body.all isComment = true) ∨ ShowsIn body) 0 (ofBody title body).count
      (ofBody title body).lines (ofBody title (uncommentedAll body)).lines := by
  cases body with
  | nil => exact .same (by simp [Stmt.not_showsIn_nil]) ..
  | cons s body =>
    cases hall : (s :: body).all isComment with
    | true =>
      have hnil := Stmt.uncommentedAll_eq_nil_iff.mpr hall
      have hdrawn := drawAfter_of_comments hall 0 none
      rw [ofBody, ofBody, hnil, drawSequence, drawSequence, hdrawn]
      exact .inr ⟨.inl ⟨by simp, rfl⟩, .next _ (.next _ (.clash clash_start _ _))⟩
    | false =>
      obtain ⟨t, ts, hplain⟩ := Stmt.exists_uncommentedAll_eq_cons hall
      have hlines := tells_drawAfter 0 none (s :: body) (by simp)
      have hresult : (drawAfter 0 none (uncommentedAll (s :: body))).result
          = (drawAfter 0 none (s :: body)).result := by
        rw [(drawAfter_eq_drawBody 0 none none _).1, (drawAfter_eq_drawBody 0 none none _).1,
          (agrees_drawBody 0 none (s :: body) (by simp)).result]
      rw [ofBody, ofBody, hplain, drawSequence, drawSequence, ← hplain, hresult]
      refine ((hlines.before ?_).after [_]).congr (by simp)
      rintro l ⟨⟩ ⟨kind, i, heq, -⟩
      cases heq

/-- Deleting comments does not renumber the nodes. -/
theorem count_ofBody_uncommented (body : List Stmt) :
    (ofBody title (uncommentedAll body)).count = (ofBody title body).count := by
  have hcount : ∀ body, (ofBody title body).count = (drawBody 0 none body).count := by
    intro body
    cases body with
    | nil => simp [ofBody, drawSequence]
    | cons s body => exact (drawAfter_eq_drawBody 0 none none (s :: body)).2
  rw [hcount, hcount]
  exact (agrees_drawBody 0 none body (by simp)).count

/-- **When deleting comments keeps the diagram.**  The diagrams of a subroutine and of the
    subroutine without its comments have the same numbers of nodes.  They are the same unless the
    body has comments only, or a repeat loop at some depth has comments only, or a branch of a
    conditional at some depth has a comment after what always ends in a return. -/
theorem render_uncommented_eq_iff {v : Value} (h : v.IsDrawableSubroutine) :
    ∃ s chart plain, Subroutine.ofValue? v = some s ∧ ofValue v = .ok chart ∧
      ofValue v.uncommentedSubroutine = .ok plain ∧ plain.count = chart.count ∧
      (plain.render = chart.render ↔
        ¬ ((s.body ≠ [] ∧ ∀ t ∈ s.body, t.isComment = true) ∨
          (∃ inner condition, (Stmt.repeatLoop inner condition).Inside s.body ∧
            inner ≠ [] ∧ ∀ t ∈ inner, t.isComment = true) ∨
          ∃ t : Stmt, t.Inside s.body ∧ ∃ branch ∈ t.branches, Stmt.HidesReturn branch)) := by
  obtain ⟨title, s, hs, hchart, hplain⟩ := h.exists_uncommented
  refine ⟨s, _, _, hs, hchart, hplain, count_ofBody_uncommented title s.body, ?_⟩
  rw [← Stmt.hasHollow_iff, ← Stmt.showsIn_iff, ← List.all_eq_true]
  rcases tells_ofBody title s.body with ⟨hshown, hlines⟩ | ⟨hshown, hparts⟩
  · have hrender : (ofBody title (uncommentedAll s.body)).render
        = (ofBody title s.body).render := by rw [render, render, hlines]
    exact iff_of_true hrender hshown
  · exact iff_of_false hparts.render_ne.symm (not_not.mpr hshown)

/-- A comment after a return in a branch takes the edge to the end away. -/
theorem render_uncommented_eq_iff_hidden :
    let v : Value := .node .subroutine [.str "f", .list [], .list [],
      .list [.node .ifStatement [.str "x", blockValue [.node .returnStatement [.str "y"],
        .node .comment [.str "c"]], .none]]]
    v.IsDrawableSubroutine ∧ ∃ chart plain, ofValue v = .ok chart ∧
      ofValue v.uncommentedSubroutine = .ok plain ∧ plain.render ≠ chart.render := by
  intro v
  have hdrawable : v.IsDrawableSubroutine := by
    refine .mk rfl (by simp) fun u hu => ?_
    obtain rfl := List.mem_singleton.mp hu
    refine .ifThen (.leftover rfl) ?_
    simp only [List.mem_cons, List.not_mem_nil, or_false, forall_eq_or_imp, forall_eq]
    exact ⟨.ret (.leftover rfl), .comment _⟩
  obtain ⟨s, chart, plain, hs, hchart, hplain, -, hiff⟩ := render_uncommented_eq_iff hdrawable
  obtain rfl := Option.some.inj hs
  refine ⟨hdrawable, chart, plain, hchart, hplain, fun heq => hiff.mp heq (.inr (.inr ?_))⟩
  exact ⟨_, .here (List.mem_singleton.mpr rfl), _, List.mem_singleton.mpr rfl,
    [.ret (.other (.str "y"))], "c", rfl, rfl⟩

/-- From a body of one comment the start leads nowhere, and without it to the end. -/
theorem comment_changes_diagram :
    let v : Value := .node .subroutine [.str "f", .list [], .list [],
      .list [.node .comment [.str "c"]]]
    ∃ chart plain, ofValue v = .ok chart ∧ ofValue v.uncommentedSubroutine = .ok plain ∧
      chart.render = "flowchart TD\n    START([\"f\"])\n    END([Fin])\n    START --> None" ∧
      plain.render = "flowchart TD\n    START([\"f\"])\n    END([Fin])\n    START --> END" :=
  ⟨_, _, rfl, rfl, by decide +kernel, by decide +kernel⟩

end Flowchart

end Ordo
