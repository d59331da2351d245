import Ordo.Proofs.Lexing
import Ordo.Proofs.Values

namespace Ordo

/-!
# Layout does not matter

Two texts that differ only in how much layout stands between their words are the same program,
or neither is one.

* `Derivation.unplaced`, `Derivation.values_unplaced` — a derivation without the places of its
  tokens, from which the same is built;
* `feed_unplaced` — the parser does not look at places;
* `Relaid` — texts that differ in their layout;
* `deriveFrom_relaid` — two parses of such texts run side by side;
* `programOfText_relaid` — what they come to;
* `layoutWords`, `Relaid.iff_layoutWords` — the words between layout, which are all that such
  texts have in common;
* `programOfText_of_layoutWords` — the words of a text decide which program it is.
-/

open List

/-! ### Places -/

/-- A token with its place forgotten. -/
def Token.unplaced (t : Token) : Token := { t with place := Place.origin }

mutual

/-- A derivation with the places of its tokens forgotten. -/
def Derivation.unplaced : Derivation → Derivation
  | .leaf t => .leaf t.unplaced
  | .node p children => .node p (Derivation.unplacedAll children)

/-- Several derivations with the places of their tokens forgotten. -/
def Derivation.unplacedAll : List Derivation → List Derivation
  | [] => []
  | d :: rest => d.unplaced :: Derivation.unplacedAll rest

end

theorem Derivation.unplacedAll_eq_map (ds : List Derivation) :
    Derivation.unplacedAll ds = ds.map Derivation.unplaced := by
  induction ds with
  | nil => rfl
  | cons d ds ih => simp only [Derivation.unplacedAll, map_cons, ih]

@[simp] theorem Derivation.symbol_unplaced (d : Derivation) : d.unplaced.symbol = d.symbol := by
  cases d <;> rfl

/-- A place leaves no trace in what is built. -/
theorem Derivation.values_unplaced (d : Derivation) : d.unplaced.values = d.values := by
  induction d with
  | leaf t =>
    simp only [values, unplaced, forest, Token.unplaced]
    split <;> rfl
  | node p ds ih =>
    have hall : valuesAll (unplacedAll ds) = valuesAll ds := by
      induction ds with
      | nil => rfl
      | cons d ds ihs =>
        obtain ⟨hd, hds⟩ := forall_mem_cons.mp ih
        have hds := ihs hds
        simp only [values, valuesAll] at hd hds
        simp only [valuesAll, unplacedAll, forests, ParseTree.buildAll_append, hd, hds]
    simp only [valuesAll] at hall
    simp only [values, unplaced, forest]
    cases p.lhs with
    | rule r => simp only [ParseTree.buildAll, ParseTree.build, hall]
    | many m => exact hall

namespace Stack

/-- A stack with the places of its tokens forgotten. -/
def unplaced (stack : Stack) : Stack := stack.map fun f => ⟨f.state, f.derivation.unplaced⟩

@[simp] theorem state_unplaced (stack : Stack) : stack.unplaced.state = stack.state := by
  cases stack <;> rfl

theorem reduce?_unplaced (stack : Stack) (p : Production) :
    stack.unplaced.reduce? p = (stack.reduce? p).map unplaced := by
  have hchildren : (stack.unplaced.take p.rhs.length).reverse.map (·.derivation)
      = ((stack.take p.rhs.length).reverse.map (·.derivation)).map Derivation.unplaced := by
    simp [unplaced, map_take, Function.comp_def]
  have hbelow : stack.unplaced.drop p.rhs.length = Stack.unplaced (stack.drop p.rhs.length) := by
    simp [unplaced, map_drop]
  unfold reduce?
  simp only [hchildren, hbelow, map_map, Function.comp_def, Derivation.symbol_unplaced,
    state_unplaced]
  split
  · cases Automaton.goto? (Stack.state (stack.drop p.rhs.length)) p.lhs with
    | none => rfl
    | some target =>
      simp [unplaced, Derivation.unplaced, Derivation.unplacedAll_eq_map, Function.comp_def]
  · rfl

end Stack

/-- What comes of feeding, with the places of all tokens forgotten. -/
def Feeding.unplaced : Feeding → Feeding
  | .shift target stack => .shift target stack.unplaced
  | .accept d => .accept d.unplaced
  | .stuck stack => .stuck stack.unplaced

theorem reduceAll_unplaced (a : Automaton.Lookahead) : ∀ (fuel : Nat) (stack : Stack),
    reduceAll a fuel stack.unplaced = (reduceAll a fuel stack).unplaced
  | 0, _ => rfl
  | fuel + 1, stack => by
    rw [reduceAll, reduceAll, Stack.state_unplaced]
    cases Automaton.action? stack.state a with
    | none => rfl
    | some act =>
      cases act with
      | shift target => rfl
      | reduce r =>
        cases hp : r.production? with
        | none => simp only [hp]; rfl
        | some p =>
          simp only [hp]
          by_cases hstart : p.lhs = .rule .start
          · simp only [hstart, if_true]
            cases stack with
            | nil => rfl
            | cons f rest => cases rest <;> rfl
          · simp only [hstart, if_false, Stack.reduce?_unplaced]
            cases stack.reduce? p with
            | none => rfl
            | some next => exact reduceAll_unplaced a fuel next

/-- Feedings that agree but for places decide alike. -/
theorem Feeding.cases_of_unplaced_eq {f f' : Feeding} (h : f.unplaced = f'.unplaced) :
    (∃ target below below', f = .shift target below ∧ f' = .shift target below' ∧
      below.unplaced = below'.unplaced) ∨
    (∃ d d', f = .accept d ∧ f' = .accept d' ∧ d.unplaced = d'.unplaced) ∨
    ∃ below below', f = .stuck below ∧ f' = .stuck below' := by
  cases f <;> cases f' <;>
    simp only [Feeding.unplaced, reduceCtorEq, Feeding.shift.injEq, Feeding.accept.injEq] at h
  case shift.shift => exact Or.inl ⟨_, _, _, rfl, by rw [h.1], h.2⟩
  case accept.accept => exact Or.inr (Or.inl ⟨_, _, rfl, rfl, h⟩)
  case stuck.stuck => exact Or.inr (Or.inr ⟨_, _, rfl, rfl⟩)

/-- **The parser does not look at places.** -/
theorem feed_unplaced (a : Automaton.Lookahead) (stack : Stack) :
    feed a stack.unplaced = (feed a stack).unplaced := by
  have hlimit : reductionLimit stack.unplaced = reductionLimit stack := by
    simp [reductionLimit, Stack.unplaced]
  rw [feed, feed, hlimit]
  exact reduceAll_unplaced a _ stack

/-! ### Texts with other layout -/

/-- Texts that differ in their layout only: each run of layout between two other characters
    stands for another such run, and so does what layout there is at the end. -/
inductive Relaid : List Char → List Char → Prop
  | ending {gap gap' : List Char} (hgap : ∀ c ∈ gap, isLayout c = true)
      (hgap' : ∀ c ∈ gap', isLayout c = true) : Relaid gap gap'
  | char {c : Char} {cs cs' : List Char} (hc : isLayout c = false) (h : Relaid cs cs') :
      Relaid (c :: cs) (c :: cs')
  | gap {gap gap' cs cs' : List Char} (hgap : ∀ c ∈ gap, isLayout c = true)
      (hgap' : ∀ c ∈ gap', isLayout c = true) (hne : gap ≠ []) (hne' : gap' ≠ [])
      (h : Relaid cs cs') : Relaid (gap ++ cs) (gap' ++ cs')

variable {gap rest word cs cs' gap' : List Char}

attribute [local simp] Except.toOption

theorem breaksOff_of_isLayout (hgap : ∀ c ∈ gap, isLayout c = true) : breaksOff gap = true := by
  rw [← append_nil gap]
  exact breaksOff_append hgap fun _ => rfl

namespace Relaid

variable {cs cs' : List Char}

/-- The same word in front of both texts. -/
theorem append_left {word : List Char} (hword : ∀ c ∈ word, isLayout c = false)
    (h : Relaid cs cs') : Relaid (word ++ cs) (word ++ cs') := by
  induction word with
  | nil => exact h
  | cons c word ih =>
    exact char (hword c mem_cons_self) (ih fun d hd => hword d (mem_cons_of_mem c hd))

/-- Layout in front of both texts may be left out. -/
theorem dropWhile (h : Relaid cs cs') :
    Relaid (cs.dropWhile isLayout) (cs'.dropWhile isLayout) := by
  induction h with
  | ending hgap hgap' =>
    rw [dropWhile_eq_nil_iff.mpr hgap, dropWhile_eq_nil_iff.mpr hgap']
    exact ending (by simp) (by simp)
  | char hc h ih =>
    rw [dropWhile_cons_of_neg (by simp [hc]), dropWhile_cons_of_neg (by simp [hc])]
    exact char hc h
  | gap hgap hgap' hne hne' h ih =>
    rw [dropWhile_append_of_pos hgap, dropWhile_append_of_pos hgap']
    exact ih

/-- Both texts start with the same word. -/
theorem exists_word (h : Relaid cs cs') : ∃ word rest rest',
    cs = word ++ rest ∧ cs' = word ++ rest' ∧ (∀ c ∈ word, isLayout c = false) ∧
      breaksOff rest = true ∧ breaksOff rest' = true ∧ Relaid rest rest' := by
  induction h with
  | ending hgap hgap' =>
    exact ⟨[], _, _, rfl, rfl, by simp, breaksOff_of_isLayout hgap, breaksOff_of_isLayout hgap',
      ending hgap hgap'⟩
  | @char c _ _ hc h ih =>
    obtain ⟨word, rest, rest', rfl, rfl, hword, hrest, hrest', hrelaid⟩ := ih
    refine ⟨c :: word, rest, rest', rfl, rfl, ?_, hrest, hrest', hrelaid⟩
    intro d hd
    rcases mem_cons.mp hd with rfl | hd
    · exact hc
    · exact hword d hd
  | gap hgap hgap' hne hne' h ih =>
    exact ⟨[], _, _, rfl, rfl, by simp, breaksOff_append hgap fun hnil => absurd hnil hne,
      breaksOff_append hgap' fun hnil => absurd hnil hne', gap hgap hgap' hne hne' h⟩

end Relaid

/-! ### Two parses side by side -/

/-- What two texts with the same first word start with is the same token, up to its place. -/
theorem lexIn_relaid (context : Terminal → Bool) (place place' : Place)
    {rest' : List Char} (hword : ∀ c ∈ word, isLayout c = false)
    (hcomment : '►' ∉ word) (hrest : breaksOff rest = true) (hrest' : breaksOff rest' = true)
    (h : Relaid rest rest') :
    lexIn context place (word ++ rest) = none ∧ lexIn context place' (word ++ rest') = none ∨
      ∃ kind text left left',
        lexIn context place (word ++ rest) = some (⟨kind, text, place⟩, left) ∧
        lexIn context place' (word ++ rest') = some (⟨kind, text, place'⟩, left') ∧
        Relaid left left' := by
  have hhead : word.head? ≠ some '►' := fun hhead => hcomment (mem_of_head? hhead)
  rw [lexIn_append context place hhead hrest, lexIn_append context place' hhead hrest',
    lexIn_place context place Place.origin, lexIn_place context place' Place.origin]
  cases hlex : lexIn context Place.origin word with
  | none => exact Or.inl ⟨rfl, rfl⟩
  | some q =>
    obtain ⟨token, left⟩ := q
    obtain ⟨-, hsplit⟩ := eq_append_of_lexIn hlex
    have hleft : ∀ c ∈ left, isLayout c = false := by
      intro c hc
      apply hword c
      rw [hsplit]
      exact mem_append_right _ hc
    exact Or.inr ⟨token.kind, token.text, left ++ rest, left ++ rest', rfl, rfl,
      h.append_left hleft⟩

/-- **Two parses of texts with other layout run side by side**: their stacks differ in places
    only, and so do their derivations in the end. -/
theorem deriveFrom_relaid : ∀ (fuel fuel' : Nat) {stack stack' : Stack} (last last' : Place)
    (place place' : Place) {cs cs' : List Char}, stack.unplaced = stack'.unplaced →
      Relaid cs cs' → '►' ∉ cs → cs.length < fuel → cs'.length < fuel' →
      (deriveFrom fuel stack last place cs).toOption.map Derivation.unplaced
        = (deriveFrom fuel' stack' last' place' cs').toOption.map Derivation.unplaced
  | 0, _, _, _, _, _, _, _, _, _, _, _, _, hfuel, _ => absurd hfuel (Nat.not_lt_zero _)
  | _ + 1, 0, _, _, _, _, _, _, _, _, _, _, _, _, hfuel' => absurd hfuel' (Nat.not_lt_zero _)
  | fuel + 1, fuel' + 1, stack, stack', last, last', place, place', cs, cs', hstack, hrelaid,
      hcomment, hfuel, hfuel' => by
    -- induction on the tokens left: the stacks agree but for places, the texts but for layout
    have hstate : stack.state = stack'.state := by
      rw [← Stack.state_unplaced, hstack, Stack.state_unplaced]
    have hfeed : ∀ a, (feed a stack).unplaced = (feed a stack').unplaced := by
      intro a
      rw [← feed_unplaced, hstack, feed_unplaced]
    obtain ⟨word, rest, rest', hcs, hcs', hword, hrest, hrest', htail⟩ :=
      hrelaid.dropWhile.exists_word
    rw [deriveFrom, deriveFrom, skipLayout_eq, skipLayout_eq]
    cases word with
    | nil =>
      -- both texts are over
      rw [nil_append] at hcs hcs'
      rw [← hcs] at hrest
      rw [← hcs'] at hrest'
      rw [eq_nil_of_breaksOff_dropWhile hrest, eq_nil_of_breaksOff_dropWhile hrest']
      rcases Feeding.cases_of_unplaced_eq (hfeed none) with ⟨target, below, below', hf, hf', -⟩ |
        ⟨d, d', hf, hf', hd⟩ | ⟨below, below', hf, hf'⟩
      · simp [hf, hf']
      · simp [hf, hf', hd]
      · simp [hf, hf']
    | cons c word =>
      have hmem : ∀ d ∈ c :: word ++ rest, d ∈ cs := by
        intro d hd
        rw [← hcs] at hd
        exact (dropWhile_sublist isLayout).mem hd
      have hword' : '►' ∉ c :: word := fun hd => hcomment (hmem _ (mem_append_left _ hd))
      have hlength : (c :: word ++ rest).length ≤ cs.length := by
        rw [← hcs]
        exact (dropWhile_sublist isLayout).length_le
      have hlength' : (c :: word ++ rest').length ≤ cs'.length := by
        rw [← hcs']
        exact (dropWhile_sublist isLayout).length_le
      rw [hcs, hcs']
      simp only [cons_append, hstate]
      rcases lexIn_relaid (Automaton.takes stack'.state)
          (place.advance (cs.takeWhile isLayout)) (place'.advance (cs'.takeWhile isLayout))
          hword hword' hrest hrest' htail with ⟨hnone, hnone'⟩ |
          ⟨kind, text, left, left', hlex, hlex', hleft⟩
      · -- neither text goes on with a token
        rw [cons_append] at hnone hnone'
        simp only [hnone, hnone']
        split <;> split <;> rfl
      · have hshorter := length_lt_of_lexIn hlex
        have hshorter' := length_lt_of_lexIn hlex'
        have hnocomment : '►' ∉ left := by
          intro hd
          apply hcomment (hmem _ _)
          rw [(eq_append_of_lexIn hlex).2]
          exact mem_append_right _ hd
        rw [cons_append] at hlex hlex'
        simp only [hlex, hlex']
        rcases Feeding.cases_of_unplaced_eq (hfeed (some kind)) with
          ⟨target, below, below', hf, hf', hbelow⟩ | ⟨d, d', hf, hf', -⟩ |
          ⟨below, below', hf, hf'⟩
        · simp only [hf, hf']
          refine deriveFrom_relaid fuel fuel' _ _ _ _ ?_ hleft hnocomment (by omega) (by omega)
          rw [Stack.unplaced, map_cons]
          exact congrArg _ hbelow
        · simp [hf, hf']
        · simp [hf, hf']

/-- Texts that differ in their layout, at the beginning too, have derivations that differ in
    places only. -/
theorem derive_relaid (hgap : ∀ c ∈ gap, isLayout c = true)
    (hgap' : ∀ c ∈ gap', isLayout c = true) (h : Relaid cs cs') (hcomment : '►' ∉ cs) :
    (derive (gap ++ cs)).toOption.map Derivation.unplaced
      = (derive (gap' ++ cs')).toOption.map Derivation.unplaced := by
  have hskip : ∀ {gap cs : List Char}, (∀ c ∈ gap, isLayout c = true) →
      derive (gap ++ cs) = deriveFrom ((gap ++ cs).length + 1) [] Place.origin
        (Place.origin.advance gap) cs := by
    intro gap cs hgap
    rw [derive, deriveFrom, deriveFrom, skipLayout_append _ hgap]
  rw [hskip hgap, hskip hgap']
  refine deriveFrom_relaid _ _ _ _ _ _ rfl h hcomment ?_ ?_
  · rw [length_append]
    omega
  · rw [length_append]
    omega

/-- The places in a derivation do not decide what a text stands for. -/
theorem programOfText_eq_some_iff {text : String} {v : Value} :
    (programOfText text).toOption = some v ↔
      ∃ d, (derive text.toList).toOption.map Derivation.unplaced = some d ∧
        d.values = .ok [v] := by
  have hok : (programOfText text).toOption = some v ↔ programOfText text = .ok v := by
    cases programOfText text <;> simp
  rw [hok, programOfText_eq_ok_iff]
  cases derive text.toList with
  | error e => simp
  | ok d => simp [Derivation.values_unplaced]

/-- **Layout does not matter**: texts without comments that differ in their layout only are the
    same program, or neither is one. -/
theorem programOfText_relaid {s t : String}
    (hgap : ∀ c ∈ gap, isLayout c = true) (hgap' : ∀ c ∈ gap', isLayout c = true)
    (h : Relaid cs cs') (hcomment : '►' ∉ cs) (hs : s.toList = gap ++ cs)
    (ht : t.toList = gap' ++ cs') : (programOfText s).toOption = (programOfText t).toOption := by
  have hderive := derive_relaid hgap hgap' h hcomment
  rw [← hs, ← ht] at hderive
  apply Option.ext
  intro v
  rw [programOfText_eq_some_iff, programOfText_eq_some_iff, hderive]

/-! ### Texts with the same words -/

/-- The words of a text: its longest runs of characters that are no layout. -/
def layoutWords : List Char → List (List Char)
  | [] => []
  | c :: cs =>
      if isLayout c then layoutWords cs
      else if breaksOff cs then [c] :: layoutWords cs
      else (layoutWords cs).modifyHead (c :: ·)

theorem layoutWords_append_gap (hgap : ∀ c ∈ gap, isLayout c = true) :
    layoutWords (gap ++ cs) = layoutWords cs := by
  induction gap with
  | nil => rfl
  | cons c gap ih =>
    obtain ⟨hc, hgap⟩ := forall_mem_cons.mp hgap
    rw [cons_append, layoutWords, if_pos hc, ih hgap]

theorem layoutWords_dropWhile (cs : List Char) :
    layoutWords (cs.dropWhile isLayout) = layoutWords cs := by
  have hgap : ∀ c ∈ cs.takeWhile isLayout, isLayout c = true := fun c => mem_takeWhile_imp
  rw [← layoutWords_append_gap hgap, takeWhile_append_dropWhile]

/-- A word and what breaks it off. -/
theorem layoutWords_append_word (hne : word ≠ [])
    (hword : ∀ c ∈ word, isLayout c = false) (hrest : breaksOff rest = true) :
    layoutWords (word ++ rest) = word :: layoutWords rest := by
  induction word with
  | nil => exact absurd rfl hne
  | cons c word ih =>
    obtain ⟨hc, hword⟩ := forall_mem_cons.mp hword
    rw [cons_append, layoutWords, if_neg (by simp [hc])]
    cases word with
    | nil => rw [nil_append, if_pos hrest]
    | cons d word =>
      have hd : ¬ breaksOff (d :: word ++ rest) = true := by
        have := hword d mem_cons_self
        simp [breaksOff, this]
      rw [if_neg hd, ih (by simp) hword, modifyHead_cons]

/-- A text is layout only, or goes on with a word after it. -/
theorem exists_first_word (cs : List Char) : (∀ c ∈ cs, isLayout c = true) ∧ layoutWords cs = [] ∨
    ∃ word rest, cs.dropWhile isLayout = word ++ rest ∧ word ≠ [] ∧
      (∀ c ∈ word, isLayout c = false) ∧ breaksOff rest = true ∧
      layoutWords cs = word :: layoutWords rest := by
  rw [← layoutWords_dropWhile, ← dropWhile_eq_nil_iff]
  cases hcs : cs.dropWhile isLayout with
  | nil => exact .inl ⟨rfl, rfl⟩
  | cons c left =>
    have hc : isLayout c = false := by
      have hhead := head?_dropWhile_not isLayout cs
      simpa [hcs] using hhead
    have hword : ∀ d ∈ c :: left.takeWhile (!isLayout ·), isLayout d = false := by
      refine forall_mem_cons.mpr ⟨hc, fun d hd => ?_⟩
      simpa using mem_takeWhile_imp hd
    have hrest : breaksOff (left.dropWhile (!isLayout ·)) = true := by
      have hhead := head?_dropWhile_not (!isLayout ·) left
      cases hleft : left.dropWhile (!isLayout ·) with
      | nil => rfl
      | cons d left => simpa [hleft, breaksOff] using hhead
    have hsplit : c :: left
        = c :: left.takeWhile (!isLayout ·) ++ left.dropWhile (!isLayout ·) := by
      rw [cons_append, takeWhile_append_dropWhile]
    refine .inr ⟨_, _, hsplit, by simp, hword, hrest, ?_⟩
    rw [hsplit, layoutWords_append_word (by simp) hword hrest]

theorem layoutWords_eq_nil_iff : layoutWords cs = [] ↔ ∀ c ∈ cs, isLayout c = true := by
  constructor
  · intro h
    rcases exists_first_word cs with ⟨hall, -⟩ | ⟨word, rest, -, -, -, -, hwords⟩
    · exact hall
    · simp [hwords] at h
  · intro hall
    rw [← append_nil cs, layoutWords_append_gap hall]
    rfl

namespace Relaid

variable {cs cs' : List Char}

theorem breaksOff_eq (h : Relaid cs cs') : breaksOff cs = breaksOff cs' := by
  cases h with
  | ending hgap hgap' => rw [breaksOff_of_isLayout hgap, breaksOff_of_isLayout hgap']
  | char hc h => rw [breaksOff, breaksOff]
  | gap hgap hgap' hne hne' h =>
    rw [breaksOff_append hgap fun hnil => absurd hnil hne,
      breaksOff_append hgap' fun hnil => absurd hnil hne']

theorem layoutWords_eq (h : Relaid cs cs') : layoutWords cs = layoutWords cs' := by
  induction h with
  | ending hgap hgap' => rw [layoutWords_eq_nil_iff.mpr hgap, layoutWords_eq_nil_iff.mpr hgap']
  | char hc h ih => rw [layoutWords, layoutWords, h.breaksOff_eq, ih]
  | gap hgap hgap' hne hne' h ih =>
    rw [layoutWords_append_gap hgap, layoutWords_append_gap hgap', ih]

theorem of_layoutWords (h : layoutWords cs = layoutWords cs') :
    Relaid (cs.dropWhile isLayout) (cs'.dropWhile isLayout) := by
  induction hwords : layoutWords cs generalizing cs cs' with
  | nil =>
    have hcs := layoutWords_eq_nil_iff.mp hwords
    have hcs' := layoutWords_eq_nil_iff.mp (h ▸ hwords)
    rw [dropWhile_eq_nil_iff.mpr hcs, dropWhile_eq_nil_iff.mpr hcs']
    exact ending (by simp) (by simp)
  | cons first words ih =>
    have hsplit : ∀ {ds : List Char}, layoutWords ds = first :: words →
        ∃ rest, ds.dropWhile isLayout = first ++ rest ∧ (∀ c ∈ first, isLayout c = false) ∧
          breaksOff rest = true ∧ layoutWords rest = words := by
      intro ds hds
      rcases exists_first_word ds with ⟨-, hnil⟩ | ⟨word, rest, hds', -, hword, hrest, hcons⟩
      · simp [hds] at hnil
      · obtain ⟨rfl, rfl⟩ := List.cons.inj (hds.symm.trans hcons)
        exact ⟨rest, hds', hword, hrest, rfl⟩
    obtain ⟨rest, hcs, hfirst, hrest, hrestwords⟩ := hsplit hwords
    obtain ⟨rest', hcs', -, hrest', hrestwords'⟩ := hsplit (h ▸ hwords)
    rw [hcs, hcs']
    refine append_left hfirst ?_
    by_cases hlast : words = []
    · -- only layout is left of both texts
      exact ending (layoutWords_eq_nil_iff.mp (hrestwords.trans hlast))
        (layoutWords_eq_nil_iff.mp (hrestwords'.trans hlast))
    · have hgap : ∀ {ds : List Char}, breaksOff ds = true → layoutWords ds = words →
          ds.takeWhile isLayout ≠ [] := by
        intro ds hbreak hds
        cases ds with
        | nil => exact absurd hds.symm hlast
        | cons d ds =>
          have hd : isLayout d = true := hbreak
          simp [hd]
      rw [← takeWhile_append_dropWhile (p := isLayout) (l := rest),
        ← takeWhile_append_dropWhile (p := isLayout) (l := rest')]
      exact gap (fun c => mem_takeWhile_imp) (fun c => mem_takeWhile_imp)
        (hgap hrest hrestwords) (hgap hrest' hrestwords')
        (ih (hrestwords.trans hrestwords'.symm) hrestwords)

/-- **Texts differ in their layout only** if and only if they have the same words. -/
theorem iff_layoutWords (cs cs' : List Char) :
    Relaid (cs.dropWhile isLayout) (cs'.dropWhile isLayout) ↔ layoutWords cs = layoutWords cs' := by
  constructor
  · intro h
    rw [← layoutWords_dropWhile cs, ← layoutWords_dropWhile cs', h.layoutWords_eq]
  · exact of_layoutWords

end Relaid

/-- **Texts with the same words are the same program, or neither is one**, whatever layout stands
    between the words and around them. -/
theorem programOfText_of_layoutWords (s t : String) (hcomment : '►' ∉ s.toList)
    (hwords : layoutWords s.toList = layoutWords t.toList) :
    (∃ v, programOfText s = .ok v ∧ programOfText t = .ok v) ∨
      ((∃ e, programOfText s = .error e) ∧ ∃ e, programOfText t = .error e) := by
  have hcomment' : '►' ∉ s.toList.dropWhile isLayout :=
    fun hmem => hcomment ((List.dropWhile_sublist isLayout).mem hmem)
  have hsame := programOfText_relaid (fun c => List.mem_takeWhile_imp)
    (fun c => List.mem_takeWhile_imp) ((Relaid.iff_layoutWords _ _).mpr hwords) hcomment'
    (List.takeWhile_append_dropWhile).symm (List.takeWhile_append_dropWhile).symm
  cases hs : programOfText s with
  | error e =>
    cases ht : programOfText t with
    | error e' => exact .inr ⟨⟨e, rfl⟩, e', rfl⟩
    | ok w => simp [hs, ht] at hsame
  | ok v =>
    cases ht : programOfText t with
    | error e' => simp [hs, ht] at hsame
    | ok w =>
      obtain rfl : v = w := by simpa [hs, ht] using hsame
      exact .inl ⟨v, rfl, rfl⟩

/-- A text with a variable that is called like a reserved word, laid out in two ways. -/
theorem programOfText_of_layoutWords_end :
    '►' ∉ "begin x := end end".toList ∧
    layoutWords "begin x := end end".toList = layoutWords "\tbegin\nx\r\n:=\x0cend\n\nend ".toList ∧
    ∃ v, programOfText "begin x := end end" = .ok v ∧
      programOfText "\tbegin\nx\r\n:=\x0cend\n\nend " = .ok v := by
  have hcomment : '►' ∉ "begin x := end end".toList := by decide
  have hwords : layoutWords "begin x := end end".toList
      = layoutWords "\tbegin\nx\r\n:=\x0cend\n\nend ".toList := by decide
  have hok : (programOfText "begin x := end end").isOk = true := by decide +kernel
  refine ⟨hcomment, hwords, ?_⟩
  rcases programOfText_of_layoutWords _ _ hcomment hwords with hsame | ⟨⟨e, he⟩, -⟩
  · exact hsame
  · rw [he] at hok
    cases hok

end Ordo
