import Ordo.Proofs.Scanning
import Ordo.Proofs.ParsedTrees
import Ordo.Proofs.Surroundings

namespace Ordo

open Automaton

/-!
# One part of a text for another

A part of a text may be replaced by another one of the same kind, if the other text is cut into
the tokens of its own derivation in that place.

* `Stands` — a text that stands for a part of a larger text;
* `Stands.cuts` — how the larger text is cut;
* `Stands.replace` — the parse of the larger text with another part;
* `Stands.cuts_of_entered` — conditions and blocks are cut alike in all places;
* `exists_stands` — a part that is found at an address of the parse.
-/

open List

/-- In the text `front ++ text ++ back`, the middle stands for the derivation `d`, which is
    surrounded by `K`. -/
structure Stands (K : Surroundings) (d : Derivation) (front text back : List Char) : Prop where
  derive_eq : derive (front ++ (text ++ back)) = .ok (K.fill d)
  before : ∀ t ∈ K.before, t.stop ≤ front.length
  inside : ∀ t ∈ d.tokens, front.length ≤ t.place.pos ∧ t.stop ≤ front.length + text.length
  after : ∀ t ∈ K.after, front.length + text.length ≤ t.place.pos

namespace Stands

variable {K : Surroundings} {d : Derivation} {front text back : List Char}
  (h : Stands K d front text back)
include h

theorem isSound : (K.fill d).IsSound := (derive_isSound h.derive_eq).1

theorem symbol_fill : (K.fill d).symbol = .nonterminal (.rule .start) :=
  (derive_isSound h.derive_eq).2

theorem settled_fill : (K.fill d).Settled := by
  obtain ⟨qs, hrun, -⟩ := exists_run_of_derive h.derive_eq
  exact hrun.settled

theorem isSound_part : d.IsSound := Surroundings.isSound_of_fill h.isSound

theorem obeys : d.Obeys Production.IsLegal := h.isSound_part.obeys

theorem settled : d.Settled := Surroundings.settled_of_fill h.isSound.obeys h.settled_fill

/-- **The larger text is cut between its parts.** -/
theorem cuts : Cuts 0 (K.pathBefore 0) (front ++ (text ++ back)) K.before (text ++ back) ∧
    Cuts K.cutState (d.path (K.stateAt 0)) (text ++ back) d.tokens back ∧
    Cuts (lastOf K.cutState (d.path (K.stateAt 0))) (K.pathAfter 0 d.symbol) back K.after [] := by
  obtain ⟨qs, hrun, hscans⟩ := exists_run_of_derive h.derive_eq
  obtain rfl : (K.fill d).path 0 = qs := hrun.path_eq
  rw [K.path_fill, K.tokens_fill] at hscans
  obtain ⟨hbefore, hscans⟩ := hscans.split (K.length_pathBefore 0) (by simpa using h.before)
    (by
      rw [Nat.zero_add]
      refine forall_mem_append.mpr ⟨fun t ht => (h.inside t ht).1, fun t ht => ?_⟩
      exact (Nat.le_add_right _ _).trans (h.after t ht))
  rw [Nat.zero_add] at hscans
  obtain ⟨hinside, hscans⟩ := hscans.split (d.length_path _) (fun t ht => (h.inside t ht).2)
    h.after
  exact ⟨hbefore, hinside, hscans.cuts⟩

variable {e : Derivation}

/-- **A part may be replaced** by one of the same symbol that starts alike and does not hang before
    an `else`, if its text is cut into its tokens there, and what comes before and after is cut as
    it was. -/
theorem replace {text' : List Char} (hlegal : e.Obeys Production.IsLegal)
    (hsettled : e.Settled) (hsymbol : e.symbol = d.symbol)
    (hfirst : nextKind e.tokens = nextKind d.tokens)
    (hhangs : e.hangs = true → nextKind K.after ≠ some .kwElse)
    (hbefore : Cuts 0 (K.pathBefore 0) (front ++ (text' ++ back)) K.before (text' ++ back))
    (hinside : TakesAll K.cutState (e.path (K.stateAt 0)) e.tokens →
      Cuts K.cutState (e.path (K.stateAt 0)) (text' ++ back) e.tokens back)
    (hlast : lastOf K.cutState (e.path (K.stateAt 0))
      = lastOf K.cutState (d.path (K.stateAt 0))) :
    ∃ d', derive (front ++ (text' ++ back)) = .ok d' ∧ d'.unplaced = (K.fill e).unplaced := by
  have hobeys := Surroundings.obeys_fill h.isSound.obeys hlegal hsymbol
  have hstart : (K.fill e).symbol = .nonterminal (.rule .start) := by
    rw [← h.symbol_fill, Surroundings.symbol_fill, Surroundings.symbol_fill, hsymbol]
  obtain ⟨qs, hrun⟩ := exists_run hobeys hstart
    (Surroundings.settled_fill h.isSound.obeys h.settled_fill hsettled hfirst hhangs)
  obtain rfl : (K.fill e).path 0 = qs := hrun.path_eq
  rw [K.tokens_fill, K.path_fill] at hrun
  -- the tokens of the part can be taken, since the run takes them
  have htakes := (hrun.takesAll.of_append (K.length_pathBefore 0)).2.of_append (e.length_path _)
  have hafter := h.cuts.2.2
  rw [← hsymbol, ← hlast] at hafter
  exact derive_of_cuts hrun (hbefore.append ((hinside htakes.1).append hafter))

theorem isSound_fill (he : e.IsSound) (hsymbol : e.symbol = d.symbol) : (K.fill e).IsSound := by
  have hlexed := h.isSound.lexed
  refine ⟨Surroundings.obeys_fill h.isSound.obeys he.obeys hsymbol, ?_⟩
  rw [K.tokens_fill, forall_mem_append, forall_mem_append] at hlexed ⊢
  exact ⟨hlexed.1, he.lexed, hlexed.2.2⟩

/-- Something is built from the whole with another part, if it is from the part. -/
theorem exists_values_fill {vs ws : List Value} (he : e.IsSound)
    (hsymbol : e.symbol = d.symbol) (hvs : (K.fill d).values = .ok vs)
    (hws : e.values = .ok ws) : ∃ us, (K.fill e).values = .ok us := by
  have hd := (Derivation.exists_values_iff h.isSound).mp ⟨vs, hvs⟩
  have hlong := (Derivation.exists_values_iff he).mp ⟨ws, hws⟩
  rw [Derivation.exists_values_iff (h.isSound_fill he hsymbol)]
  rw [K.tokens_fill, forall_mem_append, forall_mem_append] at hd ⊢
  exact ⟨hd.1, hlong, hd.2.2⟩

end Stands

variable {K : Surroundings} {d : Derivation} {back front text : List Char}

/-- **A condition or a block is cut alike wherever it stands.** -/
theorem Stands.cuts_of_entered
    {n : Nonterminal} (h : Stands K d front text back) (hn : n ∈ Nonterminal.entered)
    (hd : d.symbol = .nonterminal n) {b target : Nat}
    (hb : step? b (.nonterminal n) = some target) :
    Cuts b (d.path b) (text ++ back) d.tokens back := by
  have hne : d.symbol ≠ .nonterminal (.rule .start) := by
    rintro hstart
    rw [hd] at hstart
    rw [Symbol.nonterminal.inj hstart] at hn
    exact absurd hn (by decide)
  have hK : K ≠ .hole := by
    rintro rfl
    exact hne h.symbol_fill
  obtain ⟨a, ha⟩ := Surroundings.exists_step h.isSound.obeys h.symbol_fill hne
  rw [hd] at ha
  have hcuts := h.cuts.2.1
  rw [Surroundings.cutState, Surroundings.lastOf_pathBefore h.isSound.obeys hd hn hK,
    Derivation.path_eq_of_entered hn ha hb d h.obeys] at hcuts
  exact hcuts.of_takes_eq (takes_eq_of_entered hn ha hb)

/-! ### Finding a part -/

/-- The part of a derivation at an address, and what surrounds it. -/
def Derivation.focus? : List Nat → Derivation → Option (Surroundings × Derivation)
  | [], d => some (.hole, d)
  | _ :: _, leaf _ => none
  | i :: address, node p ds => ds[i]?.bind fun d => (d.focus? address).map fun found =>
      (.node p (ds.take i) found.1 (ds.drop (i + 1)), found.2)

theorem Derivation.fill_of_focus? {address : List Nat} {e : Derivation}
    (h : d.focus? address = some (K, e)) : K.fill e = d := by
  induction address generalizing d K with
  | nil =>
    obtain ⟨rfl, rfl⟩ := Prod.mk.inj (Option.some.inj h)
    rfl
  | cons i address ih =>
    cases d with
    | leaf t => simp [focus?] at h
    | node p ds =>
      obtain ⟨c, hc, h⟩ := Option.bind_eq_some_iff.mp h
      obtain ⟨found, hfound, h⟩ := Option.map_eq_some_iff.mp h
      obtain ⟨rfl, rfl⟩ := Prod.mk.inj h
      obtain ⟨hi, rfl⟩ := List.getElem?_eq_some_iff.mp hc
      rw [Surroundings.fill, ih hfound, ← drop_eq_getElem_cons hi, take_append_drop]

/-- Whether the tokens of a part and of its surroundings are where a text has them. -/
def Surroundings.isPlaced (K : Surroundings) (d : Derivation) (front text : List Char) : Bool :=
  K.before.all (fun t => t.stop ≤ front.length) &&
    d.tokens.all (fun t => front.length ≤ t.place.pos && t.stop ≤ front.length + text.length) &&
    K.after.all fun t => front.length + text.length ≤ t.place.pos

theorem Stands.of_isPlaced (hderive : derive (front ++ (text ++ back)) = .ok (K.fill d))
    (h : K.isPlaced d front text = true) : Stands K d front text back := by
  simp only [Surroundings.isPlaced, Bool.and_eq_true, all_eq_true, decide_eq_true_eq] at h
  exact ⟨hderive, h.1.1, h.1.2, h.2⟩

/-- A part that is found at an address stands for its text. -/
theorem exists_stands {P : Surroundings → Derivation → Bool} (address : List Nat)
    (h : ((derive (front ++ (text ++ back))).toOption.any fun e =>
      (e.focus? address).any fun found => found.1.isPlaced found.2 front text &&
        P found.1 found.2) = true) : ∃ K d, Stands K d front text back ∧ P K d = true := by
  obtain ⟨e, hderive, hfound⟩ := exists_eq_ok_of_any h
  obtain ⟨⟨K, d⟩, hfocus, hd⟩ := (Option.any_eq_true _ _).mp hfound
  obtain ⟨hplaced, hP⟩ := Bool.and_eq_true_iff.mp hd
  rw [← Derivation.fill_of_focus? hfocus] at hderive
  exact ⟨K, d, .of_isPlaced hderive hplaced, hP⟩

end Ordo
