import Mathlib.Data.List.Forall2
import Mathlib.Data.List.TakeWhile
import Ordo.Proofs.Occurrences

namespace Ordo

/-!
# Position texts

A position text such as `body[2].then[0]` is read leg by leg: a leg names a part and says which
statement in it is meant.  Reading recovers the path, so different places have different texts,
and following a text leads to the statement that it was written for.

* `Position.Leg`, `Position.decode` — a text read leg by leg;
* `Position.decode_render`, `Position.decode_renderAt` — the legs of a path;
* `Position.render_injective` — different paths have different texts;
* `Position.rename` — a text with other names for parts;
* `Stmt.lead`, `Stmt.lead_of_mem_occurrences` — following a text through a body;
* `Stmt.trail_of_lead` — what a text leads through;
* `Stmt.nodup_renderAt` — no two places have the same text.
-/

open List

namespace Position

/-! ### Legs -/

/-- A leg of a position text: the name of a part, and an index in it, if there is one. -/
structure Leg where
  name : List Char
  index? : Option Nat

namespace Leg

/-- An index in brackets. -/
def indexChars (i : Nat) : List Char := '[' :: Nat.toDigits 10 i ++ [']']

/-- A leg as text. -/
def chars (l : Leg) : List Char := l.name ++ l.index?.elim [] indexChars

/-- The leg that a text stands for. -/
def read (cs : List Char) : Leg where
  name := cs.takeWhile (· ≠ '[')
  index? := (cs.dropWhile (· ≠ '[')).tail?.map fun ds =>
    Nat.ofDigitChars 10 (ds.takeWhile (· ≠ ']')) 0

theorem ne_of_mem_toDigits {i : Nat} {c d : Char} (hc : c ∈ Nat.toDigits 10 i)
    (hd : d.isDigit = false) : c ≠ d := by
  rintro rfl
  have hdigit := Nat.isDigit_of_mem_toDigits (by decide) (by decide) hc
  rw [hd] at hdigit
  cases hdigit

/-- A leg is read back from its text. -/
theorem read_chars (l : Leg) (h : '[' ∉ l.name) : read l.chars = l := by
  have hname : ∀ c ∈ l.name, (c ≠ '[') := by
    rintro c hc rfl
    exact h hc
  obtain ⟨name, index⟩ := l
  cases index with
  | none =>
    have htake : name.takeWhile (· ≠ '[') = name := by
      rw [takeWhile_eq_self_iff]
      simpa using hname
    have hdrop : name.dropWhile (· ≠ '[') = [] := by
      rw [dropWhile_eq_nil_iff]
      simpa using hname
    simp only [read, chars, Option.elim_none, append_nil, htake, hdrop]
    rfl
  | some i =>
    have hdigits : (Nat.toDigits 10 i ++ [']']).takeWhile (· ≠ ']') = Nat.toDigits 10 i := by
      rw [takeWhile_append_of_pos]
      · simp
      · intro c hc
        simpa using ne_of_mem_toDigits hc (by decide)
    have htake : (name ++ indexChars i).takeWhile (· ≠ '[') = name := by
      rw [takeWhile_append_of_pos (by simpa using hname)]
      simp [indexChars]
    have hdrop : (name ++ indexChars i).dropWhile (· ≠ '[') = indexChars i := by
      rw [dropWhile_append_of_pos (by simpa using hname)]
      simp [indexChars]
    simp only [read, chars, Option.elim_some, htake, hdrop]
    simp only [indexChars, cons_append, tail?_cons, Option.map_some, hdigits,
      Nat.ofDigitChars_ten_toDigits]

theorem not_mem_chars {l : Leg} (h : '.' ∉ l.name) : '.' ∉ l.chars := by
  rw [chars, mem_append]
  rintro (hmem | hmem)
  · exact h hmem
  · cases hindex : l.index? with
    | none => simp [hindex] at hmem
    | some i =>
      have hdigits : '.' ∉ Nat.toDigits 10 i := fun hc => ne_of_mem_toDigits hc (by decide) rfl
      simp [hindex, indexChars, hdigits] at hmem

end Leg

/-- A text read leg by leg. -/
def decode (text : String) : List Leg := (text.toList.splitOn '.').map Leg.read

/-- The text with the given legs. -/
def encode (legs : List Leg) : List Char := ['.'].intercalate (legs.map Leg.chars)

theorem decode_eq {text : String} {legs : List Leg} (htext : text.toList = encode legs)
    (hne : legs ≠ []) (h : ∀ l ∈ legs, '.' ∉ l.name ∧ '[' ∉ l.name) : decode text = legs := by
  have hpoints : ∀ cs ∈ legs.map Leg.chars, '.' ∉ cs := by
    intro cs hcs
    obtain ⟨l, hl, rfl⟩ := mem_map.mp hcs
    exact Leg.not_mem_chars (h l hl).1
  rw [decode, htext, encode, splitOn_intercalate '.' hpoints (by simpa using hne),
    map_map]
  refine (map_congr_left fun l hl => ?_).trans (map_id legs)
  exact l.read_chars (h l hl).2

/-! ### The legs of a path -/

/-- The legs of a path from the named part on, with what comes after the last step. -/
def legs (label : PartLabel) (name : List Char) (last : Option Nat) : Path → List Leg
  | [] => [⟨name, last⟩]
  | s :: p => ⟨name, some s.index⟩ :: legs label (label s.part).toList last p

/-- The name of the whole body. -/
def root : List Char := "body".toList

theorem legs_ne_nil (label : PartLabel) (name : List Char) (last : Option Nat) (p : Path) :
    legs label name last p ≠ [] := by
  cases p <;> exact cons_ne_nil _ _

theorem toList_step (label : PartLabel) (s : Step) :
    (s.render label).toList = Leg.indexChars s.index ++ '.' :: (label s.part).toList := by
  simp [Step.render, Leg.indexChars]

theorem toList_render (label : PartLabel) (p : Path) :
    (p.render label).toList = root ++ p.flatMap fun s => (s.render label).toList := by
  rw [Path.render, String.toList_append, String.toList_join, flatMap_map]
  rfl

theorem encode_legs (label : PartLabel) (name : List Char) (last : Option Nat) (p : Path) :
    encode (legs label name last p)
      = name ++ (p.flatMap fun s => (s.render label).toList) ++ last.elim [] Leg.indexChars := by
  induction p generalizing name with
  | nil => simp [legs, encode, Leg.chars]
  | cons s p ih =>
    have hne : (legs label (label s.part).toList last p).map Leg.chars ≠ [] := by
      simpa using legs_ne_nil label _ last p
    have hrest := ih (label s.part).toList
    rw [encode] at hrest
    rw [legs, encode, map_cons, intercalate_cons_of_ne_nil hne, hrest,
      flatMap_cons, toList_step]
    simp [Leg.chars]

/-- Labels that stand in a text without being cut. -/
def IsPlain (label : PartLabel) : Prop :=
  ∀ part, '.' ∉ (label part).toList ∧ '[' ∉ (label part).toList

variable {label label' : PartLabel} {p : Path} {names : List Char → List Char}

theorem plain_of_mem_legs (hlabel : IsPlain label) {name : List Char}
    (hname : '.' ∉ name ∧ '[' ∉ name) {last : Option Nat} {p : Path} {l : Leg}
    (h : l ∈ legs label name last p) : '.' ∉ l.name ∧ '[' ∉ l.name := by
  induction p generalizing name with
  | nil =>
    obtain rfl := mem_singleton.mp h
    exact hname
  | cons s p ih =>
    rcases mem_cons.mp h with rfl | h
    · exact hname
    · exact ih (hlabel s.part) h

theorem plain_root : '.' ∉ root ∧ '[' ∉ root := by decide

section

variable {label : PartLabel} (hlabel : IsPlain label)

include hlabel

/-- The legs of a position. -/
theorem decode_render (p : Path) : decode (p.render label) = legs label root none p := by
  refine decode_eq ?_ (legs_ne_nil label root none p) fun l => plain_of_mem_legs hlabel plain_root
  rw [encode_legs, toList_render, Option.elim_none, append_nil]

/-- The legs of the position of a statement. -/
theorem decode_renderAt (p : Path) (i : Nat) :
    decode (p.renderAt label i) = legs label root (some i) p := by
  refine decode_eq ?_ (legs_ne_nil label root _ p) fun l => plain_of_mem_legs hlabel plain_root
  rw [encode_legs, Path.renderAt, Path.render]
  simp [root, Leg.indexChars, flatMap_map]

end

/-- A path can be read off its legs, as far as the labels tell. -/
theorem eq_of_legs_eq {name name' : List Char} {last last' : Option Nat}
    {q : Path} (h : legs label name last p = legs label name' last' q) :
    name = name' ∧ last = last' ∧
      p.map (fun s => (s.index, label s.part)) = q.map (fun s => (s.index, label s.part)) := by
  induction p generalizing name name' q with
  | nil =>
    cases q with
    | nil =>
      simp only [legs, List.cons.injEq, Leg.mk.injEq, and_true] at h
      exact ⟨h.1, h.2, rfl⟩
    | cons t q => simp [legs, (legs_ne_nil _ _ _ q).symm] at h
  | cons s p ih =>
    cases q with
    | nil => simp [legs, legs_ne_nil] at h
    | cons t q =>
      simp only [legs, List.cons.injEq, Leg.mk.injEq, Option.some.injEq] at h
      obtain ⟨⟨hname, hindex⟩, hrest⟩ := h
      obtain ⟨hpart, hlast, hmap⟩ := ih hrest
      exact ⟨hname, hlast, by simp [hindex, String.toList_inj.mp hpart, hmap]⟩

/-- Different paths have different texts, if different parts have different labels. -/
theorem render_injective (hplain : IsPlain label)
    (hlabel : Function.Injective label) : Function.Injective (Path.render label) := by
  intro p q h
  have hlegs := congrArg decode h
  rw [decode_render hplain, decode_render hplain] at hlegs
  obtain ⟨-, -, hmap⟩ := eq_of_legs_eq hlegs
  refine map_injective_iff.mpr (fun s t hst => ?_) hmap
  obtain ⟨hindex, hpart⟩ := Prod.mk.inj hst
  cases s
  cases t
  rw [Step.mk.injEq]
  exact ⟨hindex, hlabel hpart⟩

/-! ### Other names for parts -/

/-- A text with other names for the parts. -/
def rename (names : List Char → List Char) (text : String) : String :=
  String.ofList (encode ((decode text).map fun l => { l with name := names l.name }))

theorem map_legs (name : List Char) (last : Option Nat)
    (h : ∀ s ∈ p, names (label s.part).toList = (label' s.part).toList) :
    (legs label name last p).map (fun l => { l with name := names l.name })
      = legs label' (names name) last p := by
  induction p generalizing name with
  | nil => rfl
  | cons s p ih =>
    obtain ⟨hs, hp⟩ := forall_mem_cons.mp h
    rw [legs, map_cons, ih _ hp, hs, legs]

/-- Renaming the parts in a text is writing the path with other labels. -/
theorem rename_render (hlabel : IsPlain label) (hroot : names root = root)
    (h : ∀ s ∈ p, names (label s.part).toList = (label' s.part).toList) :
    rename names (p.render label) = p.render label' := by
  rw [rename, decode_render hlabel, map_legs root none h, hroot, encode_legs, Option.elim_none,
    append_nil, ← toList_render, String.ofList_toList]

end Position

/-! ### Following a text -/

namespace Stmt

open Position

/-- The part of a statement that has the given name. -/
def enter (label : PartLabel) (name : List Char) (s : Stmt) : Option (List Stmt) :=
  (s.parts.find? fun p => (label p.1).toList = name).map Prod.snd

/-- The statements that legs lead through, and the one that they lead to. -/
def follow (label : PartLabel) : List Stmt → List Leg → Option (List Stmt × Stmt)
  | body, [⟨_, some i⟩] => body[i]?.map fun s => ([], s)
  | body, ⟨_, some i⟩ :: l :: ls => do
      let s ← body[i]?
      let inner ← s.enter label l.name
      let (outer, t) ← follow label inner (l :: ls)
      return (s :: outer, t)
  | _, _ => none

/-- The statements that a position text leads through, and the one that it leads to. -/
def lead (label : PartLabel) (body : List Stmt) (text : String) : Option (List Stmt × Stmt) :=
  if ((decode text).head?.map Leg.name) = some root then follow label body (decode text) else none

variable {label : PartLabel} {s : Stmt} {o : Occurrence} {body outer : List Stmt}

theorem enter_of_mem_parts (hlabel : label .thenBranch ≠ label .elseBranch) {p : Part × List Stmt}
    (h : p ∈ s.parts) : s.enter label (label p.1).toList = some p.2 := by
  cases s <;> simp only [parts, mem_cons, not_mem_nil, or_false] at h
  case ifElse condition body otherwise =>
    rcases h with rfl | rfl
    · simp [enter, parts]
    · have hne : (label .thenBranch).toList ≠ (label .elseBranch).toList := by
        rwa [ne_eq, String.toList_inj]
      simp [enter, parts, hne]
  all_goals
    subst h
    simp [enter, parts]

/-- **A position leads to the statement that it is the position of**, through the statements whose
    parts its steps enter. -/
theorem follow_of_mem_occurrences (hlabel : label .thenBranch ≠ label .elseBranch)
    (ho : o ∈ occurrencesFrom 0 body) (name : List Char) :
    ∃ outer, follow label body (legs label name (some o.index) o.path) = some (outer, o.stmt) ∧
      List.Forall₂ (fun step s => ∃ inner, (step.part, inner) ∈ s.parts) o.path outer := by
  obtain ⟨path, index, t⟩ := o
  induction path generalizing body name with
  | nil =>
    obtain ⟨i, s, hs, h | ⟨p, -, u, -, h⟩⟩ := mem_occurrencesFrom.mp ho
    · simp only [Occurrence.mk.injEq, true_and, Nat.zero_add] at h
      obtain ⟨rfl, rfl⟩ := h
      exact ⟨[], by simp [legs, follow, hs], .nil⟩
    · simp [Occurrence.below] at h
  | cons step path ih =>
    obtain ⟨i, s, hs, h | ⟨p, hp, u, hu, h⟩⟩ := mem_occurrencesFrom.mp ho
    · simp at h
    · simp only [Occurrence.below, Occurrence.mk.injEq, List.cons.injEq, Nat.zero_add] at h
      obtain ⟨⟨rfl, rfl⟩, rfl, rfl⟩ := h
      obtain ⟨outer, hfollow, hparts⟩ := ih (label p.1).toList hu
      refine ⟨s :: outer, ?_, .cons ⟨p.2, hp⟩ hparts⟩
      have henter := enter_of_mem_parts hlabel hp
      cases hpath : u.path <;>
        simp_all [legs, follow]

theorem lead_of_mem_occurrences (hplain : IsPlain label)
    (hlabel : label .thenBranch ≠ label .elseBranch) (ho : o ∈ occurrencesFrom 0 body) :
    ∃ outer, lead label body (o.path.renderAt label o.index) = some (outer, o.stmt) ∧
      List.Forall₂ (fun step s => ∃ inner, (step.part, inner) ∈ s.parts) o.path outer := by
  obtain ⟨outer, hfollow, hparts⟩ := follow_of_mem_occurrences hlabel ho root
  refine ⟨outer, ?_, hparts⟩
  have hhead : (legs label root (some o.index) o.path).head?.map Leg.name = some root := by
    cases o.path <;> rfl
  rw [lead, decode_renderAt hplain, if_pos hhead, hfollow]

theorem mem_bodies_of_enter {name : List Char} {inner : List Stmt}
    (h : s.enter label name = some inner) : inner ∈ s.bodies := by
  obtain ⟨p, hp, rfl⟩ := Option.map_eq_some_iff.mp h
  exact mem_bodies_of_mem_parts (mem_of_find?_eq_some hp)

theorem trail_of_follow {ls : List Leg}
    (h : follow label body ls = some (outer, s)) : Trail s body outer := by
  fun_induction follow label body ls generalizing outer s with
  | case1 body name i =>
    obtain ⟨t, ht, heq⟩ := Option.map_eq_some_iff.mp h
    obtain ⟨rfl, rfl⟩ := Prod.mk.inj heq
    exact .here (mem_of_getElem? ht)
  | case2 body name i l ls ih =>
    simp only [Option.bind_eq_bind, Option.bind_eq_some_iff] at h
    obtain ⟨t, ht, inner, hinner, ⟨through, u⟩, hfollow, heq⟩ := h
    obtain ⟨rfl, rfl⟩ := Prod.mk.inj (Option.some.inj heq)
    exact .deeper (mem_of_getElem? ht) (mem_bodies_of_enter hinner) (ih inner hfollow)
  | case3 => cases h

/-- What a text leads through are the statements around the one that it leads to. -/
theorem trail_of_lead {text : String}
    (h : lead label body text = some (outer, s)) : Trail s body outer := by
  unfold lead at h
  split at h
  · exact trail_of_follow h
  · cases h

/-- **Different places have different position texts.** -/
theorem nodup_renderAt (hplain : IsPlain label)
    (hlabel : label .thenBranch ≠ label .elseBranch) (body : List Stmt) :
    ((occurrencesFrom 0 body).map fun o => o.path.renderAt label o.index).Nodup := by
  have haddress := nodup_address hlabel 0 body
  refine List.Nodup.map_on (fun o ho u hu heq => ?_) haddress.of_map
  apply inj_on_of_nodup_map haddress ho hu
  have hlegs := congrArg decode heq
  rw [decode_renderAt hplain, decode_renderAt hplain] at hlegs
  obtain ⟨-, hindex, hpath⟩ := eq_of_legs_eq hlegs
  exact Prod.ext hpath (Option.some.inj hindex)

end Stmt

end Ordo
