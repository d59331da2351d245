import Ordo.Proofs.Stalling

namespace Ordo

/-!
# Recurrences in the middle of a text

A recurrence is looked for in a text, and whatever stands before and after it is passed over.  A
cost in parentheses ends at the first one that closes, a cost without them at the end of its line.

* `Text.squeeze` — a text without its blanks;
* `Text.Passage`, `Text.Template.locate` — where a template is found in a text;
* `Recurrence.Divide.IsWritten` — the texts `T(n) = aT(n/b) + O(f)` and their variants, up to
  blanks;
* `Recurrence.Divide.isWritten_found` — what is found is such a text;
* `Recurrence.Divide.read_whole_iff` — when the whole text is one.
-/

open List Option

/-! ### Texts without blanks -/

namespace Text

/-- A text without its blanks. -/
def squeeze (cs : List Char) : List Char := cs.filter fun c => !isBlank c

@[simp]
theorem squeeze_nil : squeeze [] = [] := rfl

@[simp]
theorem squeeze_append (cs ds : List Char) : squeeze (cs ++ ds) = squeeze cs ++ squeeze ds :=
  filter_append ..

variable {cs rest : List Char}

theorem squeeze_of_isBlank (h : ∀ c ∈ cs, isBlank c = true) : squeeze cs = [] := by
  rw [squeeze, filter_eq_nil_iff]
  intro c hc
  simp [h c hc]

theorem squeeze_eq_self (h : ∀ c ∈ cs, isBlank c = false) : squeeze cs = cs := by
  rw [squeeze, filter_eq_self]
  intro c hc
  simp [h c hc]

theorem squeeze_dropWhile (cs : List Char) : squeeze (cs.dropWhile isBlank) = squeeze cs := by
  conv_rhs => rw [← takeWhile_append_dropWhile (p := isBlank) (l := cs), squeeze_append,
    squeeze_of_isBlank fun c => mem_takeWhile_imp, nil_append]

theorem squeeze_reverse (cs : List Char) : squeeze cs.reverse = (squeeze cs).reverse :=
  filter_reverse ..

theorem squeeze_trim (cs : List Char) : squeeze (trim cs) = squeeze cs := by
  rw [trim, trimEnd, squeeze_reverse, squeeze_dropWhile, squeeze_reverse, reverse_reverse,
    squeeze_dropWhile]

theorem not_isBlank_of_mem_head?_dropWhile :
    ∀ c ∈ (cs.dropWhile isBlank).head?, isBlank c = false := by
  intro c hc
  have hnot := head?_dropWhile_not isBlank cs
  rw [mem_def.mp hc] at hnot
  exact hnot

/-- A trimmed text does not end with a blank. -/
theorem not_isBlank_of_mem_getLast?_trim : ∀ c ∈ (trim cs).getLast?, isBlank c = false := by
  rw [trim, trimEnd, getLast?_reverse]
  exact not_isBlank_of_mem_head?_dropWhile

/-- A trimmed text does not start with a blank. -/
theorem not_isBlank_of_mem_head?_trim : ∀ c ∈ (trim cs).head?, isBlank c = false := by
  intro c hc
  obtain ⟨rest, hrest⟩ : trim cs <+: cs.dropWhile isBlank := by
    rw [trim, trimEnd, ← reverse_suffix, reverse_reverse]
    exact dropWhile_suffix isBlank
  apply @not_isBlank_of_mem_head?_dropWhile cs
  rw [← hrest, head?_append, mem_def.mp hc]
  rfl

theorem squeeze_ne_nil_of_mem {c : Char} (hc : c ∈ cs)
    (hblank : isBlank c = false) : squeeze cs ≠ [] :=
  ne_nil_of_mem (mem_filter.mpr ⟨hc, by simp [hblank]⟩)

/-- A trimmed text starts with nothing, or with more than blanks. -/
theorem squeeze_before_eq_nil_iff {before : List Char} (h : trim cs = before ++ rest) :
    squeeze before = [] ↔ before = [] := by
  refine ⟨fun hsqueeze => ?_, fun hnil => by rw [hnil]; rfl⟩
  cases before with
  | nil => rfl
  | cons c before =>
    have hblank := @not_isBlank_of_mem_head?_trim cs c (by rw [h]; rfl)
    exact absurd hsqueeze (squeeze_ne_nil_of_mem mem_cons_self hblank)

/-- A trimmed text ends with nothing, or with more than blanks. -/
theorem squeeze_after_eq_nil_iff {after : List Char} (h : trim cs = rest ++ after) :
    squeeze after = [] ↔ after = [] := by
  refine ⟨fun hsqueeze => ?_, fun hnil => by rw [hnil]; rfl⟩
  rcases eq_nil_or_concat' after with hnil | ⟨front, c, rfl⟩
  · exact hnil
  · have hblank := @not_isBlank_of_mem_getLast?_trim cs c (by
      rw [h, ← append_assoc, getLast?_concat]
      rfl)
    exact absurd hsqueeze (squeeze_ne_nil_of_mem (by simp) hblank)

/-! ### Where a template is found -/

/-- A place in a text where a template fits: what stands before and after it, and the kept
    runs. -/
structure Passage where
  before : List Char
  found : List Char
  after : List Char
  runs : List (List Char)

namespace Template

/-- The first place in a text where a template fits. -/
def locate (t : Template) : List Char → Option Passage
  | [] => (t.fit []).map fun q => ⟨[], [], q.2, q.1⟩
  | c :: cs =>
      match t.fit (c :: cs) with
      | some (runs, rest) =>
          some ⟨[], (c :: cs).take ((c :: cs).length - rest.length), rest, runs⟩
      | none => (locate t cs).map fun p => { p with before := c :: p.before }

/-- Searching gives the runs of the first place. -/
theorem search_eq_map_locate (t : Template) (cs : List Char) :
    t.search cs = (t.locate cs).map Passage.runs := by
  induction cs with
  | nil => simp [search, locate, Function.comp_def]
  | cons c cs ih =>
    rw [search, locate]
    cases t.fit (c :: cs) with
    | some q => rfl
    | none =>
      rw [ih, Option.map_map]
      rfl

variable {cs tail : List Char} {runs : List (List Char)} {t : Template}

theorem Fits.cons_inv {p : Piece} {ps : Template} (h : Fits (p :: ps) cs runs tail) :
    ∃ run rest runs', p.Takes run ∧ cs = run ++ rest ∧ runs = p.record run runs'
      ∧ Fits ps rest runs' tail := by
  obtain _ | ⟨hrun, hrest⟩ := h
  exact ⟨_, _, _, hrun, rfl, rfl, hrest⟩

/-- What a template does not take is the end of the text. -/
theorem Fits.suffix (h : Fits t cs runs tail) : tail <:+ cs := by
  induction h with
  | nil rest => exact suffix_rfl
  | cons hrun h ih => exact ih.trans (suffix_append ..)

/-- **The parts of a passage** make up the text, and the template fits where it is found. -/
theorem fits_of_locate {p : Passage} (h : t.locate cs = some p) :
    cs = p.before ++ p.found ++ p.after ∧ Fits t (p.found ++ p.after) p.runs p.after := by
  induction cs generalizing p with
  | nil =>
    obtain ⟨⟨runs, rest⟩, hfit, rfl⟩ := map_eq_some_iff.mp h
    have hfits := fits_of_fit hfit
    obtain rfl : rest = [] := suffix_nil.mp hfits.suffix
    exact ⟨rfl, hfits⟩
  | cons c cs ih =>
    rw [locate] at h
    cases hfit : t.fit (c :: cs) with
    | some q =>
      obtain ⟨runs, rest⟩ := q
      rw [hfit] at h
      obtain rfl := Option.some.inj h
      have hfits := fits_of_fit hfit
      have hwhole : (c :: cs).take ((c :: cs).length - rest.length) ++ rest = c :: cs := by
        obtain ⟨found, hfound⟩ := hfits.suffix
        rw [← hfound]
        simp
      exact ⟨by rw [nil_append, hwhole], by rw [hwhole]; exact hfits⟩
    | none =>
      rw [hfit] at h
      obtain ⟨p, hp, rfl⟩ := map_eq_some_iff.mp h
      obtain ⟨hcs, hfits⟩ := ih hp
      exact ⟨by rw [hcs]; rfl, hfits⟩

end Template

end Text

namespace Recurrence

open Text Text.Template

/-! ### Written recurrences -/

/-- The letter `O` and parentheses around a cost. -/
def orderFrame (f : List Char) : List Char := "O(".toList ++ (f ++ [')'])

namespace Divide

variable (d : Divide)

/-- Decimal digits that are read as a given number. -/
def Spells (cs : List Char) (n : Nat) : Prop := digits.Takes cs ∧ number cs = .ok n

/-- What stands before the cost of a recurrence, without blanks: `T(n)=aT(n/b)+`, with or without
    a star, or without the coefficient if it is one. -/
inductive IsLead : List Char → Prop
  | branching {a b : List Char} (star : List Char) (hstar : star = [] ∨ star = ['*'])
      (ha : Spells a d.branches) (hb : Spells b d.factor) :
      IsLead ("T(n)=".toList ++ (a ++ (star ++ ("T(n/".toList ++ (b ++ ")+".toList)))))
  | single {b : List Char} (hone : d.branches = 1) (hb : Spells b d.factor) :
      IsLead ("T(n)=".toList ++ ("T(n/".toList ++ (b ++ ")+".toList)))

/-- The cost `O(f)` of a recurrence, without blanks. -/
def wrappedCost : List Char := orderFrame (squeeze d.cost.toList)

/-- The texts `T(n) = aT(n/b) + O(f)`, `T(n) = a*T(n/b) + O(f)` and `T(n) = T(n/b) + O(f)`, and the
    same with `f` in place of `O(f)`, up to blanks. -/
def IsWritten (cs : List Char) : Prop :=
  ∃ lead cost, d.IsLead lead ∧ (cost = d.wrappedCost ∨ cost = squeeze d.cost.toList)
    ∧ squeeze cs = lead ++ cost

/-- Where the first form that is found in a text stands. -/
def passage? (cs : List Char) : Option Passage := forms.findSome? fun t => t.locate cs

end Divide

/-! ### Passages of a form -/

section Pieces

variable {ps : Template} {cs tail : List Char} {runs : List (List Char)}

variable {run : List Char}

theorem squeeze_of_takes_blanks (h : blanks.Takes run) : squeeze run = [] :=
  squeeze_of_isBlank h.accepted

theorem squeeze_of_takes_digits (h : digits.Takes run) : squeeze run = run :=
  squeeze_eq_self fun c hc => not_isBlank_of_isDecimal (h.accepted c hc)

theorem fits_blanks (h : Fits (blanks :: ps) cs runs tail) :
    ∃ rest, squeeze cs = squeeze rest ∧ Fits ps rest runs tail := by
  obtain ⟨run, rest, runs', hrun, rfl, rfl, hrest⟩ := h.cons_inv
  exact ⟨rest, by rw [squeeze_append, squeeze_of_takes_blanks hrun, nil_append], hrest⟩

theorem fits_digits (h : Fits (digits :: ps) cs runs tail) :
    ∃ run rest runs', digits.Takes run ∧ runs = run :: runs' ∧ squeeze cs = run ++ squeeze rest
      ∧ Fits ps rest runs' tail := by
  obtain ⟨run, rest, runs', hrun, rfl, rfl, hrest⟩ := h.cons_inv
  exact ⟨run, rest, runs', hrun, rfl, by rw [squeeze_append, squeeze_of_takes_digits hrun], hrest⟩

theorem fits_head (h : Fits (head ++ ps) cs runs tail) :
    ∃ rest, squeeze cs = "T(n)=".toList ++ squeeze rest ∧ Fits ps rest runs tail := by
  rw [show head = text "T(n)" ++ [blanks, .char '=', blanks] from rfl, append_assoc] at h
  obtain ⟨afterName, rfl, hafterName⟩ := h.of_text
  obtain ⟨atSign, hatSign, hfits⟩ := fits_blanks hafterName
  obtain ⟨afterSign, rfl, hafterSign⟩ := hfits.of_char
  obtain ⟨rest, hrest, hps⟩ := fits_blanks hafterSign
  refine ⟨rest, ?_, hps⟩
  rw [squeeze_append, hatSign, ← hrest]
  rfl

theorem fits_coefficient (h : Fits (coefficient ++ ps) cs runs tail) :
    ∃ a star rest runs', digits.Takes a ∧ (star = [] ∨ star = ['*']) ∧ runs = a :: runs'
      ∧ squeeze cs = a ++ (star ++ squeeze rest) ∧ Fits ps rest runs' tail := by
  obtain ⟨a, afterDigits, runs', ha, rfl, hcs, hafterDigits⟩ := fits_digits h
  obtain ⟨atStar, hatStar, hstarred⟩ := fits_blanks hafterDigits
  obtain ⟨star, afterStar, runs'', htakes, rfl, rfl, hafterStar⟩ := hstarred.cons_inv
  obtain ⟨rest, hrest, hps⟩ := fits_blanks hafterStar
  have hstar : star = [] ∨ star = ['*'] := by
    match star, htakes with
    | [], _ => exact .inl rfl
    | [c], htakes => exact .inr (by simpa [Piece.optional] using htakes.accepted)
    | c :: c' :: star, htakes => exact absurd (htakes.bounded 1 rfl) (by simp)
  refine ⟨a, star, rest, _, ha, hstar, rfl, ?_, hps⟩
  rw [hcs, hatStar, squeeze_append, hrest]
  rcases hstar with rfl | rfl <;> rfl

theorem fits_divided (h : Fits (divided ++ ps) cs runs tail) :
    ∃ b rest runs', digits.Takes b ∧ runs = b :: runs'
      ∧ squeeze cs = "T(n/".toList ++ (b ++ ')' :: squeeze rest) ∧ Fits ps rest runs' tail := by
  rw [show divided = text "T(n/" ++ [digits, .char ')'] from rfl, append_assoc] at h
  obtain ⟨afterName, rfl, hafterName⟩ := h.of_text
  obtain ⟨b, afterDigits, runs', hb, rfl, hcs, hafterDigits⟩ := fits_digits hafterName
  obtain ⟨rest, rfl, hps⟩ := hafterDigits.of_char
  refine ⟨b, rest, runs', hb, rfl, ?_, hps⟩
  rw [squeeze_append, hcs]
  rfl

theorem fits_plus (h : Fits (plus ++ ps) cs runs tail) :
    ∃ rest, squeeze cs = '+' :: squeeze rest ∧ Fits ps rest runs tail := by
  obtain ⟨atSign, hatSign, hfits⟩ := fits_blanks h
  obtain ⟨afterSign, rfl, hafterSign⟩ := hfits.of_char
  obtain ⟨rest, hrest, hps⟩ := fits_blanks hafterSign
  refine ⟨rest, ?_, hps⟩
  rw [hatSign, ← hrest]
  rfl

/-- A template of a cost, which keeps one run and stands for that run in a frame. -/
def Frames (cost : Template) (frame : List Char → List Char) : Prop :=
  ∀ cs runs tail, Fits cost cs runs tail →
    ∃ f, runs = [f] ∧ squeeze cs = frame (squeeze f) ++ squeeze tail

theorem frames_order : Frames order orderFrame := by
  intro cs runs tail h
  obtain ⟨afterName, rfl, hafterName⟩ := h.of_text
  obtain ⟨f, afterCost, runs', hf, rfl, rfl, hafterCost⟩ := hafterName.cons_inv
  obtain ⟨rest, rfl, hrest⟩ := hafterCost.of_char
  cases hrest
  refine ⟨f, rfl, ?_⟩
  rw [squeeze_append, squeeze_append, orderFrame, append_assoc, append_assoc]
  rfl

theorem frames_anything : Frames [anything] id := by
  intro cs runs tail h
  obtain ⟨f, rest, runs', hf, rfl, rfl, hrest⟩ := h.cons_inv
  cases hrest
  exact ⟨f, rfl, squeeze_append ..⟩

end Pieces

/-! ### What is found -/

namespace Divide

variable {d : Divide} {cost : Template} {frame : List Char → List Char} {cs tail : List Char}
  {runs : List (List Char)}

theorem squeeze_cost {f : List Char} (hf : String.ofList (trim f) = d.cost) :
    squeeze d.cost.toList = squeeze f := by
  rw [← hf, String.toList_ofList, squeeze_trim]

/-- The form with a coefficient takes a lead and a cost. -/
theorem exists_lead_branching (hframe : Frames cost frame)
    (h : Fits (head ++ coefficient ++ divided ++ plus ++ cost) cs runs tail)
    (hruns : ofFit runs = .ok (some d)) : ∃ lead, d.IsLead lead
      ∧ squeeze cs = lead ++ frame (squeeze d.cost.toList) ++ squeeze tail := by
  simp only [append_assoc] at h
  obtain ⟨rest₁, hcs, h₁⟩ := fits_head h
  obtain ⟨a, star, rest₂, runs₂, ha, hstar, rfl, hrest₁, h₂⟩ := fits_coefficient h₁
  obtain ⟨b, rest₃, runs₃, hb, rfl, hrest₂, h₃⟩ := fits_divided h₂
  obtain ⟨rest₄, hrest₃, h₄⟩ := fits_plus h₃
  obtain ⟨f, rfl, hrest₄⟩ := hframe _ _ _ h₄
  obtain ⟨hbranches, hfactor, hf⟩ := ofFit_eq_some_iff.mp hruns
  refine ⟨_, .branching star hstar ⟨ha, hbranches⟩ ⟨hb, hfactor⟩, ?_⟩
  rw [hcs, hrest₁, hrest₂, hrest₃, hrest₄, squeeze_cost hf]
  simp

/-- The form without a coefficient takes a lead and a cost. -/
theorem exists_lead_single (hframe : Frames cost frame)
    (h : Fits (head ++ divided ++ plus ++ cost) cs runs tail) (hruns : ofFit runs = .ok (some d)) :
    ∃ lead, d.IsLead lead
      ∧ squeeze cs = lead ++ frame (squeeze d.cost.toList) ++ squeeze tail := by
  simp only [append_assoc] at h
  obtain ⟨rest₁, hcs, h₁⟩ := fits_head h
  obtain ⟨b, rest₂, runs₂, hb, rfl, hrest₁, h₂⟩ := fits_divided h₁
  obtain ⟨rest₃, hrest₂, h₃⟩ := fits_plus h₂
  obtain ⟨f, rfl, hrest₃⟩ := hframe _ _ _ h₃
  obtain ⟨hbranches, hfactor, hf⟩ := ofFit_eq_some_iff.mp (show ofFit [['1'], b, f] = _ from hruns)
  have hone : d.branches = 1 := (Except.ok.inj hbranches).symm
  refine ⟨_, .single hone ⟨hb, hfactor⟩, ?_⟩
  rw [hcs, hrest₁, hrest₂, hrest₃, squeeze_cost hf]
  simp

variable {p : Passage}

/-- **What is found is a written recurrence.** -/
theorem isWritten_found (h : passage? cs = some p) (hruns : ofFit p.runs = .ok (some d)) :
    cs = p.before ++ p.found ++ p.after ∧ d.IsWritten p.found := by
  obtain ⟨t, ht, hlocate⟩ := exists_of_findSome?_eq_some h
  obtain ⟨hcs, hfits⟩ := fits_of_locate hlocate
  refine ⟨hcs, ?_⟩
  have hfound : ∀ {lead : List Char} {frame : List Char → List Char},
      squeeze (p.found ++ p.after) = lead ++ frame (squeeze d.cost.toList) ++ squeeze p.after →
      squeeze p.found = lead ++ frame (squeeze d.cost.toList) := by
    intro lead frame hsqueeze
    rw [squeeze_append] at hsqueeze
    exact append_cancel_right hsqueeze
  simp only [forms, mem_cons, not_mem_nil, or_false] at ht
  rcases ht with rfl | rfl | rfl | rfl
  · obtain ⟨lead, hlead, hsqueeze⟩ := exists_lead_branching frames_order hfits hruns
    exact ⟨lead, _, hlead, .inl rfl, hfound hsqueeze⟩
  · obtain ⟨lead, hlead, hsqueeze⟩ := exists_lead_single frames_order hfits hruns
    exact ⟨lead, _, hlead, .inl rfl, hfound hsqueeze⟩
  · obtain ⟨lead, hlead, hsqueeze⟩ := exists_lead_branching frames_anything hfits hruns
    exact ⟨lead, _, hlead, .inr rfl, hfound hsqueeze⟩
  · obtain ⟨lead, hlead, hsqueeze⟩ := exists_lead_single frames_anything hfits hruns
    exact ⟨lead, _, hlead, .inr rfl, hfound hsqueeze⟩

/-! ### What is passed over -/

theorem notMem_of_spells {digits : List Char} {n : Nat} (h : Spells digits n) {c : Char}
    (hc : isDecimal c = false) : c ∉ digits := by
  intro hmem
  exact absurd (h.1.accepted c hmem) (by simp [Recurrence.digits, Piece.longest, hc])

/-- A lead has one equality sign, after the name, and one plus sign, at the end. -/
theorem IsLead.shape {lead : List Char} (h : d.IsLead lead) :
    ∃ middle, lead = "T(n)".toList ++ '=' :: (middle ++ ['+']) ∧ '=' ∉ middle ∧ '+' ∉ middle := by
  cases h with
  | @branching a b star hstar ha hb =>
    refine ⟨a ++ (star ++ ("T(n/".toList ++ (b ++ [')']))), by simp, ?_, ?_⟩
    · rcases hstar with rfl | rfl <;>
        simp [notMem_of_spells ha (show isDecimal '=' = false by decide),
          notMem_of_spells hb (show isDecimal '=' = false by decide)]
    · rcases hstar with rfl | rfl <;>
        simp [notMem_of_spells ha (show isDecimal '+' = false by decide),
          notMem_of_spells hb (show isDecimal '+' = false by decide)]
  | @single b hone hb =>
    refine ⟨"T(n/".toList ++ (b ++ [')']), by simp, ?_, ?_⟩
    · simp [notMem_of_spells hb (show isDecimal '=' = false by decide)]
    · simp [notMem_of_spells hb (show isDecimal '+' = false by decide)]

theorem cut_inj_of_notMem {α : Type} {c : α} {as bs as' bs' : List α} (has : c ∉ as)
    (has' : c ∉ as') (h : as ++ c :: bs = as' ++ c :: bs') : as = as' ∧ bs = bs' := by
  induction as generalizing as' with
  | nil =>
    cases as' with
    | nil => exact ⟨rfl, (List.cons.inj h).2⟩
    | cons a as' => exact absurd ((List.cons.inj h).1 ▸ mem_cons_self) has'
  | cons a as ih =>
    cases as' with
    | nil => exact absurd ((List.cons.inj h).1 ▸ mem_cons_self) has
    | cons a' as' =>
      obtain ⟨rfl, htail⟩ := List.cons.inj h
      obtain ⟨rfl, rfl⟩ := ih (fun hc => has (mem_cons_of_mem _ hc))
        (fun hc => has' (mem_cons_of_mem _ hc)) htail
      exact ⟨rfl, rfl⟩

/-- **A lead is in front.**  Where a text with a lead and a cost has a lead and a cost inside it,
    of as many equality signs, nothing comes before, and the leads are the same. -/
theorem IsLead.eq_of_append {lead lead' before cost cost' after : List Char} (h : d.IsLead lead)
    (h' : d.IsLead lead') (hcount : cost'.count '=' = cost.count '=')
    (heq : lead' ++ cost' = before ++ (lead ++ cost) ++ after) :
    before = [] ∧ cost' = cost ++ after := by
  obtain ⟨middle, rfl, hequals, hplus⟩ := h.shape
  obtain ⟨middle', rfl, hequals', hplus'⟩ := h'.shape
  have hbefore : '=' ∉ before := by
    have hcounts := congrArg (List.count '=') heq
    simp [hcount, count_eq_zero.mpr hequals, count_eq_zero.mpr hequals'] at hcounts
    exact count_eq_zero.mp (by omega)
  have hfirst : "T(n)".toList ++ '=' :: (middle' ++ '+' :: cost')
      = (before ++ "T(n)".toList) ++ '=' :: (middle ++ '+' :: (cost ++ after)) := by
    simpa using heq
  obtain ⟨hname, hrest⟩ := cut_inj_of_notMem (by decide)
    (by simpa using hbefore) hfirst
  obtain ⟨-, hcost⟩ := cut_inj_of_notMem hplus' hplus hrest
  exact ⟨self_eq_append_left.mp hname, hcost⟩

/-- The rest of a text makes `O(f)` out of the cost `f` that is found in it. -/
def IsCompleted (d : Divide) (p : Passage) : Prop :=
  (∃ lead, d.IsLead lead ∧ squeeze p.found = lead ++ squeeze d.cost.toList)
    ∧ squeeze d.cost.toList ++ squeeze p.after = d.wrappedCost

theorem count_wrappedCost : d.wrappedCost.count '=' = (squeeze d.cost.toList).count '=' := by
  simp [wrappedCost, orderFrame]

theorem length_wrappedCost : d.wrappedCost.length = (squeeze d.cost.toList).length + 3 := by
  simp [wrappedCost, orderFrame]

theorem isWritten_iff_of_passage?
    (h : passage? (trim cs) = some p) (hruns : ofFit p.runs = .ok (some d)) :
    d.IsWritten (trim cs) ↔ p.before = [] ∧ (p.after = [] ∨ d.IsCompleted p) := by
  obtain ⟨hcs, lead, cost, hlead, hcost, hfound⟩ := isWritten_found h hruns
  have hbefore := squeeze_before_eq_nil_iff (hcs.trans (append_assoc ..))
  have hafter := squeeze_after_eq_nil_iff hcs
  have hsqueeze : squeeze (trim cs) = squeeze p.before ++ (lead ++ cost) ++ squeeze p.after := by
    rw [hcs, squeeze_append, squeeze_append, hfound]
  rw [← hbefore, ← hafter]
  constructor
  · rintro ⟨lead', cost', hlead', hcost', hwhole⟩
    have hcount : cost'.count '=' = cost.count '=' := by
      rcases hcost with rfl | rfl <;> rcases hcost' with rfl | rfl <;> simp [count_wrappedCost]
    obtain ⟨hnone, hrest⟩ := hlead.eq_of_append hlead' hcount (hwhole.symm.trans hsqueeze)
    refine ⟨hnone, ?_⟩
    -- the costs are `O(f)` or `f`, and the longer one cannot be followed to make the shorter one
    rcases hcost with rfl | rfl <;> rcases hcost' with rfl | rfl
    · exact .inl (self_eq_append_right.mp hrest)
    · have hlength := congrArg List.length hrest
      rw [length_append, length_wrappedCost] at hlength
      omega
    · exact .inr ⟨⟨lead, hlead, hfound⟩, hrest.symm⟩
    · exact .inl (self_eq_append_right.mp hrest)
  · rintro ⟨hnone, hrest | ⟨⟨lead', hlead', hfound'⟩, hcompleted⟩⟩
    · refine ⟨lead, cost, hlead, hcost, ?_⟩
      rw [hsqueeze, hnone, hrest, nil_append, append_nil]
    · refine ⟨lead', _, hlead', .inl rfl, ?_⟩
      rw [hsqueeze, hnone, ← hfound, hfound', nil_append, append_assoc, hcompleted]

/-- Reading takes the runs of the passage that is found. -/
theorem read_eq_elim (text : String) :
    Divide.read text = (passage? (trim text.toList)).elim (.ok none) fun p => ofFit p.runs := by
  have hsearch : (forms.findSome? fun t => t.search (trim text.toList))
      = (passage? (trim text.toList)).map Passage.runs := by
    rw [passage?, map_findSome?]
    exact congrArg (findSome? · forms) (funext fun t => search_eq_map_locate t _)
  unfold Divide.read
  simp only [hsearch]
  cases passage? (trim text.toList) <;> rfl

/-- **What is ignored of a text.**  Where a recurrence is read, it is written in the passage that
    is found, in one of the usual forms.  The whole text is written in such a form if and only if
    nothing stands before and after the passage; or nothing before it, and what comes after it
    completes a cost `f` to `O(f)`. -/
theorem read_whole_iff {text : String} (h : Divide.read text = .ok (some d)) :
    ∃ p, passage? (trim text.toList) = some p
      ∧ trim text.toList = p.before ++ p.found ++ p.after
      ∧ d.IsWritten p.found
      ∧ (d.IsWritten (trim text.toList) ↔ p.before = [] ∧ (p.after = [] ∨ d.IsCompleted p)) := by
  rw [read_eq_elim] at h
  cases hp : passage? (trim text.toList) with
  | none =>
    rw [hp] at h
    cases h
  | some p =>
    rw [hp] at h
    obtain ⟨hcs, hfound⟩ := isWritten_found hp h
    exact ⟨p, rfl, hcs, hfound, isWritten_iff_of_passage? hp h⟩

/-- A cost with parentheses of its own: the last one is ignored. -/
theorem read_whole_iff_inner_parentheses :
    Divide.read "T(n) = 2T(n/2) + O(n log(n))" = .ok (some ⟨2, 2, "n log(n"⟩)
    ∧ ¬(⟨2, 2, "n log(n"⟩ : Divide).IsWritten (trim "T(n) = 2T(n/2) + O(n log(n))".toList) := by
  have hread : Divide.read "T(n) = 2T(n/2) + O(n log(n))" = .ok (some ⟨2, 2, "n log(n"⟩) := by
    rfl
  have hpassage : (passage? (trim "T(n) = 2T(n/2) + O(n log(n))".toList)).map Passage.after
      = some [')'] := by
    decide +kernel
  refine ⟨hread, fun hwritten => ?_⟩
  obtain ⟨p, hp, -, -, hiff⟩ := read_whole_iff hread
  rw [hp] at hpassage
  have hafter : p.after = [')'] := Option.some.inj hpassage
  rcases (hiff.mp hwritten).2 with hnone | ⟨-, hcompleted⟩
  · rw [hafter] at hnone
    cases hnone
  · rw [hafter] at hcompleted
    exact absurd hcompleted (by decide +kernel)

end Divide

end Recurrence

end Ordo
