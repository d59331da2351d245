import Ordo.Proofs.Layout
import Ordo.Proofs.Runs
import Ordo.Proofs.Spread

namespace Ordo

open Automaton

/-!
# How a run cuts its text

A parse is a run over tokens together with a way to cut the text into those tokens, each in the
context of the state that the run is in.  So texts can be taken apart where one token ends, and put
together again.

* `Cuts` — a text that starts with some tokens, each cut in the context of its state;
* `Scans` — the same for a whole text, with the places of the tokens;
* `exists_run_of_derive` — a parse is a run over the tokens that its text is cut into;
* `derive_of_cuts` — a run over tokens is a parse of every text that is cut into them;
* `Scans.split` — a text falls apart between two tokens;
* `Cuts.append`, `Cuts.transfer` — texts are put together, or go on in another way.
-/

open List

/-- A text that starts with some tokens, with layout before each of them.  The first state is the
    one in whose context the first token is cut, and the other states are those that the tokens
    lead to.  Places do not matter. -/
inductive Cuts : Nat → List Nat → List Char → List Token → List Char → Prop
  | done {q : Nat} {gap cs : List Char} (hgap : ∀ c ∈ gap, isLayout c = true) :
      Cuts q [] (gap ++ cs) [] cs
  | token {q q' : Nat} {qs : List Nat} {gap cs rest left : List Char} {t : Token}
      {ts : List Token} (hgap : ∀ c ∈ gap, isLayout c = true)
      (hlex : lexIn (takes q) t.place cs = some (t, rest)) (h : Cuts q' qs rest ts left) :
      Cuts q (q' :: qs) (gap ++ cs) (t :: ts) left

/-- Where a token ends in its text. -/
def Token.stop (t : Token) : Nat := t.place.pos + t.text.toList.length

/-- A whole text that is cut into tokens, and that stands at a position. -/
inductive Scans : Nat → Nat → List Nat → List Char → List Token → Prop
  | done {pos q : Nat} {cs : List Char} (hcs : ∀ c ∈ cs, isLayout c = true) : Scans pos q [] cs []
  | token {pos q q' : Nat} {qs : List Nat} {gap cs rest : List Char} {t : Token}
      {ts : List Token} (hgap : ∀ c ∈ gap, isLayout c = true)
      (hlex : lexIn (takes q) t.place cs = some (t, rest)) (hpos : t.place.pos = pos + gap.length)
      (h : Scans t.stop q' qs rest ts) : Scans pos q (q' :: qs) (gap ++ cs) (t :: ts)

variable {q : Nat} {qs : List Nat} {ts : List Token} {left : List Char}

variable {pos : Nat} {cs rest gap front r s u : List Char} {context : Terminal → Bool}
  {place : Place} {t : Token} {d : Derivation} {f : Feeding} {qs' : List Nat} {us : List Token}
  {c : Char}

/-- Every token of a text is cut in the context of some state. -/
theorem Scans.exists_lexIn (h : Scans pos q qs cs ts) :
    ∀ t ∈ ts, ∃ q cs rest, lexIn (takes q) t.place cs = some (t, rest) := by
  induction h with
  | done => simp
  | token hgap hlex hpos h ih => exact forall_mem_cons.mpr ⟨⟨_, _, _, hlex⟩, ih⟩

/-! ### Parses and runs -/

theorem Place.pos_advance (place : Place) (cs : List Char) :
    (place.advance cs).pos = place.pos + cs.length := by
  induction cs generalizing place with
  | nil => rfl
  | cons c cs ih =>
    have hstep : (place.step c).pos = place.pos + 1 := by
      rw [Place.step]
      split <;> rfl
    have hadvance : place.advance (c :: cs) = (place.step c).advance cs := rfl
    rw [hadvance, ih, hstep, length_cons]
    omega

theorem place_of_lexIn (h : lexIn context place cs = some (t, rest)) : t.place = place := by
  obtain ⟨k, -, hk⟩ := exists_of_findSome?_eq_some h
  split at hk
  · obtain ⟨⟨l, r⟩, -, hpair⟩ := Option.map_eq_some_iff.mp hk
    obtain ⟨rfl, -⟩ := Prod.mk.inj hpair
    rfl
  · simp at hk

theorem lexIn_nil (context : Terminal → Bool) (place : Place) : lexIn context place [] = none := by
  cases h : lexIn context place [] with
  | none => rfl
  | some q =>
    obtain ⟨hne, hsplit⟩ := eq_append_of_lexIn h
    exact absurd (append_eq_nil_iff.mp hsplit.symm).1 hne

/-- A token starts with no layout. -/
theorem exists_head_of_lexIn (h : lexIn context place cs = some (t, rest)) :
    ∃ c cs', cs = c :: cs' ∧ isLayout c = false := by
  cases cs with
  | nil => simp [lexIn_nil] at h
  | cons c cs =>
    refine ⟨c, cs, rfl, ?_⟩
    cases hc : isLayout c with
    | false => rfl
    | true =>
      have hbreaks : breaksOff (c :: cs) = true := hc
      have hnone := lexIn_append context place (s := []) (by simp) hbreaks
      rw [lexIn_nil, nil_append, h] at hnone
      simp at hnone

/-- A parse is a run over the tokens that its text is cut into. -/
theorem exists_run_of_deriveFrom :
    ∀ (fuel : Nat) {stack : Stack} {last place : Place} {cs : List Char} {d : Derivation},
      deriveFrom fuel stack last place cs = .ok d →
        ∃ qs ts, Run stack qs ts d ∧ Scans place.pos stack.state qs cs ts
  | 0, _, _, _, _, _, h => by simp [deriveFrom] at h
  | fuel + 1, stack, last, place, cs, d, h => by
    have hgap : ∀ c ∈ cs.takeWhile isLayout, isLayout c = true := fun c => mem_takeWhile_imp
    have hsplit : cs.takeWhile isLayout ++ cs.dropWhile isLayout = cs :=
      takeWhile_append_dropWhile
    rw [deriveFrom, skipLayout_eq] at h
    cases hdrop : cs.dropWhile isLayout with
    | nil =>
      rw [hdrop] at h
      simp only at h
      split at h
      · rename_i e haccept
        obtain rfl : e = d := by simpa using h
        exact ⟨[], [], .accept haccept, .done (dropWhile_eq_nil_iff.mp hdrop)⟩
      · simp at h
      · simp at h
    | cons c rest =>
      rw [hdrop] at h
      simp only at h
      split at h
      · rename_i token left hlex
        have hplace := place_of_lexIn hlex
        split at h
        · rename_i target below hshift
          obtain ⟨qs, ts, hrun, hscans⟩ := exists_run_of_deriveFrom fuel h
          refine ⟨target :: qs, token :: ts, .shift hshift hrun, ?_⟩
          rw [← hsplit, hdrop]
          refine .token hgap (by rw [hplace]; exact hlex) ?_ ?_
          · rw [hplace, Place.pos_advance]
          · rw [Token.stop, hplace, ← Place.pos_advance]
            exact hscans
        · simp at h
        · simp at h
      · split at h <;> simp at h

/-- **A parse is a run over the tokens of its derivation**, which the text is cut into. -/
theorem exists_run_of_derive (h : derive cs = .ok d) :
    ∃ qs, Run [] qs d.tokens d ∧ Scans 0 0 qs cs d.tokens := by
  obtain ⟨qs, ts, hrun, hscans⟩ := exists_run_of_deriveFrom _ h
  have htokens : d.tokens = ts := hrun.tokens_eq
  rw [htokens]
  exact ⟨qs, hrun, hscans⟩

/-- What agrees with a success but for places is one. -/
theorem Feeding.eq_accept_of_unplaced
    (h : f.unplaced = .accept d.unplaced) : ∃ d', f = .accept d' ∧ d'.unplaced = d.unplaced := by
  cases f <;> simp only [Feeding.unplaced, reduceCtorEq, Feeding.accept.injEq] at h
  exact ⟨_, rfl, h⟩

/-- What agrees with a shift but for places is one. -/
theorem Feeding.eq_shift_of_unplaced {target : Nat} {below : Stack}
    (h : f.unplaced = .shift target below.unplaced) :
    ∃ below' : Stack, f = .shift target below' ∧ below'.unplaced = below.unplaced := by
  cases f <;> simp only [Feeding.unplaced, reduceCtorEq, Feeding.shift.injEq] at h
  obtain ⟨rfl, hbelow⟩ := h
  exact ⟨_, rfl, hbelow⟩

theorem feed_of_unplaced_eq {stack stack' : Stack} (h : stack'.unplaced = stack.unplaced)
    (a : Lookahead) : (feed a stack').unplaced = (feed a stack).unplaced := by
  rw [← feed_unplaced, h, feed_unplaced]

/-- A run over tokens is a parse of a text that is cut into them. -/
theorem deriveFrom_of_cuts {stack : Stack} (h : Run stack qs ts d) :
    ∀ {stack' : Stack} {cs : List Char} (fuel : Nat) (last place : Place),
      stack'.unplaced = stack.unplaced → Cuts stack.state qs cs ts [] → cs.length < fuel →
      ∃ d', deriveFrom fuel stack' last place cs = .ok d' ∧ d'.unplaced = d.unplaced := by
  -- induction on the run: the stacks agree but for places
  induction h with
  | @accept stack d haccept =>
    intro stack' cs fuel last place hstack hcuts hfuel
    obtain ⟨fuel, rfl⟩ : ∃ n, fuel = n + 1 := ⟨fuel - 1, by omega⟩
    have hfeed := feed_of_unplaced_eq hstack none
    rw [haccept] at hfeed
    obtain ⟨d', hd', hunplaced⟩ := Feeding.eq_accept_of_unplaced hfeed
    cases hcuts with
    | @done _ gap _ hgap =>
      refine ⟨d', ?_, hunplaced⟩
      rw [deriveFrom, skipLayout_append place hgap]
      simp only [skipLayout, hd']
  | @shift stack below t target qs ts d hshift hrun ih =>
    intro stack' cs fuel last place hstack hcuts hfuel
    obtain ⟨fuel, rfl⟩ : ∃ n, fuel = n + 1 := ⟨fuel - 1, by omega⟩
    have hfeed := feed_of_unplaced_eq hstack (some t.kind)
    rw [hshift] at hfeed
    obtain ⟨below', hbelow', hunplaced⟩ := Feeding.eq_shift_of_unplaced hfeed
    have hstate : stack'.state = stack.state := by
      rw [← Stack.state_unplaced, hstack, Stack.state_unplaced]
    cases hcuts with
    | @token _ _ _ gap cs rest _ _ _ hgap hlex hcuts =>
      obtain ⟨c, cs, rfl, hc⟩ := exists_head_of_lexIn hlex
      let place' := place.advance gap
      let t' : Token := ⟨t.kind, t.text, place'⟩
      have hshift' : feed (some t'.kind) stack' = .shift target below' := hbelow'
      have hlex' : lexIn (takes stack'.state) place' (c :: cs) = some (t', rest) := by
        rw [lexIn_place _ _ t.place, hstate, hlex]
        rfl
      have hskip : skipLayout place (gap ++ c :: cs) = (place', c :: cs) := by
        rw [skipLayout_append place hgap]
        simp [skipLayout, hc, place']
      have hlength := length_lt_of_lexIn hlex
      rw [length_append] at hfuel
      have hstack' : Stack.unplaced (⟨target, .leaf t'⟩ :: below')
          = Stack.unplaced (⟨target, .leaf t⟩ :: below) := by
        rw [Stack.unplaced, map_cons]
        exact congrArg _ hunplaced
      obtain ⟨d', hd', hd⟩ := ih fuel place' (place'.advance t.text.toList) hstack' hcuts
        (by omega)
      refine ⟨d', ?_, hd⟩
      rw [deriveFrom, hskip]
      simp only [hlex', hshift']
      exact hd'

/-- **A run over tokens is a parse of every text that is cut into them**, but for places. -/
theorem derive_of_cuts (h : Run [] qs ts d) (hcuts : Cuts 0 qs cs ts []) :
    ∃ d', derive cs = .ok d' ∧ d'.unplaced = d.unplaced :=
  deriveFrom_of_cuts h _ _ _ rfl hcuts (Nat.lt_succ_self _)

/-! ### Texts that are taken apart and put together -/

theorem Cuts.of_gap (hgap : ∀ c ∈ gap, isLayout c = true) (h : Cuts q qs cs ts left) :
    Cuts q qs (gap ++ cs) ts left := by
  cases h with
  | @done _ gap' _ hgap' =>
    rw [← append_assoc]
    exact .done (forall_mem_append.mpr ⟨hgap, hgap'⟩)
  | @token _ _ _ gap' _ _ _ _ _ hgap' hlex h =>
    rw [← append_assoc]
    exact .token (forall_mem_append.mpr ⟨hgap, hgap'⟩) hlex h

/-- Only the context of the first state matters. -/
theorem Cuts.of_takes_eq {q' : Nat} (htakes : takes q = takes q')
    (h : Cuts q qs cs ts left) : Cuts q' qs cs ts left := by
  cases h with
  | done hgap => exact .done hgap
  | token hgap hlex h => exact .token hgap (htakes ▸ hlex) h

/-- One text after another. -/
theorem Cuts.append {mid : List Char}
    (h : Cuts q qs cs ts mid) (h' : Cuts (lastOf q qs) qs' mid us left) :
    Cuts q (qs ++ qs') cs (ts ++ us) left := by
  induction h with
  | done hgap => exact h'.of_gap hgap
  | token hgap hlex h ih => exact .token hgap hlex (ih h')

theorem Scans.cuts (h : Scans pos q qs cs ts) : Cuts q qs cs ts [] := by
  induction h with
  | @done _ _ cs hcs =>
    rw [← append_nil cs]
    exact .done hcs
  | token hgap hlex hpos h ih => exact .token hgap hlex ih

/-- What is left of a text after a shorter beginning. -/
theorem exists_of_append_eq_append (h : front ++ cs = gap ++ rest)
    (hlength : gap.length ≤ front.length) : ∃ more, front = gap ++ more ∧ rest = more ++ cs := by
  rcases append_eq_append_iff.mp h with ⟨more, rfl, rfl⟩ | ⟨more, rfl, rfl⟩
  · have hnil : more = [] := by
      rw [length_append] at hlength
      exact length_eq_zero_iff.mp (by omega)
    exact ⟨[], by simp [hnil], by simp [hnil]⟩
  · exact ⟨more, rfl, rfl⟩

/-- **A text falls apart between two tokens.** -/
theorem Scans.split
    (h : Scans pos q (qs ++ qs') (front ++ cs) (ts ++ us)) (hlength : qs.length = ts.length)
    (hts : ∀ t ∈ ts, t.stop ≤ pos + front.length)
    (hus : ∀ t ∈ us, pos + front.length ≤ t.place.pos) :
    Cuts q qs (front ++ cs) ts cs ∧ Scans (pos + front.length) (lastOf q qs) qs' cs us := by
  induction ts generalizing pos q qs front with
  | nil =>
    obtain rfl := length_eq_zero_iff.mp hlength
    rw [nil_append, nil_append] at h
    generalize htext : front ++ cs = text at h
    cases h with
    | done hcs =>
      subst htext
      obtain ⟨hfront, hcs⟩ := forall_mem_append.mp hcs
      exact ⟨.done hfront, .done hcs⟩
    | @token _ _ _ _ gap rest _ t us hgap hlex hpos h =>
      have hlength := hus t mem_cons_self
      obtain ⟨more, rfl, rfl⟩ := exists_of_append_eq_append htext.symm (by omega)
      obtain ⟨hfront, hmore⟩ := forall_mem_append.mp hgap
      constructor
      · rw [append_assoc]
        exact .done hfront
      · refine .token hmore hlex ?_ h
        rw [hpos, length_append]
        omega
  | cons t ts ih =>
    obtain ⟨q', qs, rfl⟩ := exists_cons_of_length_eq_add_one hlength
    rw [cons_append, cons_append] at h
    generalize htext : front ++ cs = text at h
    cases h with
    | @token _ _ _ _ gap rest left _ _ hgap hlex hpos h =>
      obtain ⟨-, hrest⟩ := eq_append_of_lexIn hlex
      have hstop := hts t mem_cons_self
      rw [Token.stop, hpos] at hstop
      rw [hrest, ← append_assoc] at htext
      obtain ⟨more, hfront, hleft⟩ := exists_of_append_eq_append htext
        (by rw [length_append]; omega)
      have hend : t.stop + more.length = pos + front.length := by
        rw [Token.stop, hpos, hfront, length_append, length_append]
        omega
      rw [hleft] at h
      obtain ⟨hcuts, hscans⟩ := ih h (by simpa using hlength)
        (by rw [hend]; exact fun u hu => hts u (mem_cons_of_mem t hu))
        (by rw [hend]; exact hus)
      rw [← hleft] at hcuts
      rw [hend] at hscans
      exact ⟨.token hgap hlex hcuts, hscans⟩

/-- What is left is the end of the text. -/
theorem Cuts.exists_append (h : Cuts q qs cs ts left) : ∃ used, cs = used ++ left := by
  induction h with
  | done hgap => exact ⟨_, rfl⟩
  | @token _ _ _ gap _ _ _ t _ hgap hlex h ih =>
    obtain ⟨used, rfl⟩ := ih
    refine ⟨gap ++ (t.text.toList ++ used), ?_⟩
    rw [(eq_append_of_lexIn hlex).2, append_assoc, append_assoc]

/-- A comment reaches to the end of its line. -/
theorem lexIn_comment (context : Terminal → Bool) (place : Place) (cs : List Char) :
    lexIn context place ('►' :: cs) = if context .comment then
      some (⟨.comment, String.ofList ('►' :: cs.takeWhile (· ≠ '\n')), place⟩,
        cs.dropWhile (· ≠ '\n')) else none := by
  have hfitting : fitting ('►' :: cs) = [.comment] := rfl
  rw [lexIn_eq_fitting, hfitting, findSome?_singleton]
  rfl

/-- Where a run of characters ends does not depend on what follows later. -/
theorem takeWhile_transfer {p : Char → Bool}
    (h : (s ++ c :: r).dropWhile p = u ++ c :: r) (r' : List Char) :
    (s ++ c :: r').takeWhile p = (s ++ c :: r).takeWhile p ∧
      (s ++ c :: r').dropWhile p = u ++ c :: r' := by
  induction s with
  | nil =>
    by_cases hc : p c = true
    · have hlength := (dropWhile_sublist p (l := r)).length_le
      rw [nil_append, dropWhile_cons_of_pos hc] at h
      rw [h, length_append, length_cons] at hlength
      omega
    · rw [nil_append, dropWhile_cons_of_neg hc] at h
      obtain rfl : [] = u := append_cancel_right (nil_append _ |>.trans h)
      simp [hc]
  | cons a s ih =>
    by_cases ha : p a = true
    · simp only [cons_append, dropWhile_cons_of_pos ha] at h
      simp [ha, ih h]
    · rw [cons_append, dropWhile_cons_of_neg ha, ← cons_append] at h
      obtain rfl := append_cancel_right h
      simp [ha]

/-- What a text starts with does not depend on how it goes on after something that ends a token. -/
theorem lexIn_transfer (hc : endsToken c = true)
    (h : lexIn context place (s ++ c :: r) = some (t, u ++ c :: r)) (r' : List Char) :
    lexIn context place (s ++ c :: r') = some (t, u ++ c :: r') := by
  obtain ⟨hne, hsplit⟩ := eq_append_of_lexIn h
  have hs : s = t.text.toList ++ u := by
    rw [← append_assoc] at hsplit
    exact append_cancel_right hsplit
  cases s with
  | nil => exact absurd (append_eq_nil_iff.mp hs.symm).1 hne
  | cons a s =>
    by_cases hhead : a = '►'
    · -- a comment: what it leaves starts with the end of the line, before `r` does
      subst hhead
      rw [cons_append, lexIn_comment] at h ⊢
      by_cases hcomment : context .comment = true
      · rw [if_pos hcomment] at h ⊢
        obtain ⟨rfl, hdrop⟩ := Prod.mk.inj (Option.some.inj h)
        obtain ⟨htake, hdrop'⟩ := takeWhile_transfer hdrop r'
        rw [htake, hdrop']
      · simp [hcomment] at h
    · have hends (r : List Char) : endsTokens (c :: r) = true := hc
      have hfirst : (a :: s).head? ≠ some '►' := by simpa using hhead
      rw [lexIn_append_of_endsTokens context place hfirst (hends _) (.inl (by simp))] at h ⊢
      obtain ⟨⟨t', u'⟩, hlex, hpair⟩ := Option.map_eq_some_iff.mp h
      obtain ⟨rfl, hu⟩ := Prod.mk.inj hpair
      obtain rfl : u' = u := append_cancel_right hu
      rw [hlex]
      rfl

/-- **A text may go on in another way** after something that ends a token. -/
theorem Cuts.transfer {w : List Char} (hc : endsToken c = true)
    (h : Cuts q qs (front ++ c :: r) ts (w ++ c :: r)) (r' : List Char) :
    Cuts q qs (front ++ c :: r') ts (w ++ c :: r') := by
  generalize htext : front ++ c :: r = text at h
  generalize hleft : w ++ c :: r = left at h
  induction h generalizing front with
  | done hgap =>
    subst hleft
    rw [← append_assoc] at htext
    rw [append_cancel_right htext, append_assoc]
    exact .done hgap
  | @token _ _ _ gap cs rest _ t _ hgap hlex h ih =>
    obtain ⟨used, rfl⟩ := h.exists_append
    obtain ⟨-, hcs⟩ := eq_append_of_lexIn hlex
    subst hleft
    rw [hcs] at htext hlex
    simp only [← append_assoc] at htext
    rw [← append_assoc, ← append_assoc] at hlex
    have hlex' := lexIn_transfer hc (by rw [hlex, append_assoc]) r'
    rw [append_cancel_right htext]
    simp only [append_assoc] at hlex' ⊢
    refine .token hgap hlex' ?_
    rw [← append_assoc]
    exact ih (append_assoc _ _ _) rfl

end Ordo
