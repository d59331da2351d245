import Mathlib.Data.List.Infix
import Ordo.Proofs.CallCounts

namespace Ordo

/-!
# How a parameter is reported to shrink

The pattern of a recursion is read off the text of an argument, by searching it for pieces such as
`- 1` and `/2`.  Between the signs and the numbers of a text there are blanks, so that some pieces
are never found, and others in numbers and names that only begin with them or contain them.

* `Text.occurs_eq_true_iff` — searching finds a text inside another;
* `Shrinking` — subtraction and division of a parameter by a number;
* `Pattern.ofArgument_shown` — the pattern that is read off such an argument;
* `Analysis.reduction_eq` — what is reported of a syntax tree;
* `Subroutine.reduction_of_shrinking` — when the reported pattern is which.
-/

open List

/-! ### Texts inside texts -/

namespace Text

variable {pattern after before : List Char} {c : Char}

theorem occurs_eq_true_iff {text : List Char} : occurs pattern text = true ↔ pattern <:+: text := by
  induction text with
  | nil => cases pattern <;> simp [occurs]
  | cons c cs ih =>
    rw [occurs, Bool.or_eq_true, ih, isPrefixOf_iff_prefix, infix_cons_iff]

/-- What begins with a character that is not in a text begins after it. -/
theorem infix_of_infix_append (hc : c ∉ before)
    (h : c :: pattern <:+: before ++ after) : c :: pattern <:+: after := by
  induction before with
  | nil => exact h
  | cons b before ih =>
    rw [mem_cons, not_or] at hc
    rcases infix_cons_iff.mp h with hstart | hpiece
    · exact absurd (cons_prefix_cons.mp hstart).1 hc.1
    · exact ih hc.2 hpiece

theorem prefix_of_prefix_append_cons
    (hc : c ∉ pattern) (h : pattern <+: before ++ c :: after) : pattern <+: before := by
  induction before generalizing pattern with
  | nil =>
    cases pattern with
    | nil => exact nil_prefix
    | cons d pattern =>
      obtain ⟨rfl, -⟩ := cons_prefix_cons.mp h
      exact absurd mem_cons_self hc
  | cons b before ih =>
    cases pattern with
    | nil => exact nil_prefix
    | cons d pattern =>
      obtain ⟨rfl, hstart⟩ := cons_prefix_cons.mp h
      exact cons_prefix_cons.mpr ⟨rfl, ih (not_mem_of_not_mem_cons hc) hstart⟩

/-- What does not contain a character stands before or after it. -/
theorem infix_append_cons (hc : c ∉ pattern)
    (h : pattern <:+: before ++ c :: after) : pattern <:+: before ∨ pattern <:+: after := by
  induction before with
  | nil =>
    rcases infix_cons_iff.mp h with hstart | hpiece
    · have hnil : pattern <+: [] := prefix_of_prefix_append_cons hc hstart
      exact .inl hnil.isInfix
    · exact .inr hpiece
  | cons b before ih =>
    rcases infix_cons_iff.mp h with hstart | hpiece
    · have hbefore : pattern <+: b :: before := prefix_of_prefix_append_cons hc hstart
      exact .inl hbefore.isInfix
    · exact (ih hpiece).imp_left fun hbefore => hbefore.trans (suffix_cons b before).isInfix

end Text

/-! ### Arguments -/

/-- Ways to make a parameter smaller. -/
inductive Shrinking
  | subtraction | division
  deriving DecidableEq, Repr

namespace Shrinking

/-- Its sign. -/
def sign : Shrinking → Char
  | subtraction => '-'
  | division => '/'

/-- The named parameter, made smaller by a number. -/
def argument (op : Shrinking) (name : Name) (k : Nat) : Expr :=
  .binary (.singleton op.sign) (.var name [] none []) (.number (.whole k))

/-- How it is shown, from the characters of the name and of the number. -/
def shown (op : Shrinking) (name digits : List Char) : List Char :=
  name ++ ' ' :: op.sign :: ' ' :: digits

theorem toList_shortText_argument (op : Shrinking) (name : Name) (k : Nat) :
    (op.argument name k).shortText.toList = op.shown name.shown.toList (Nat.toDigits 10 k) := by
  have hdigits : (k : Int).repr.toList = Nat.toDigits 10 k := Nat.toList_repr
  simp [argument, Expr.shortText, Numeral.text, shown, hdigits]

variable (op : Shrinking) {name digits : List Char}

variable {pattern : List Char}

/-- A piece that begins with a sign is found at the sign. -/
theorem infix_shown_iff {c : Char} (hname : c ∉ name) (hdigits : c ∉ digits) (hblank : c ≠ ' ') :
    c :: pattern <:+: op.shown name digits ↔ c = op.sign ∧ pattern <+: ' ' :: digits := by
  have hshown : op.shown name digits = (name ++ [' ']) ++ op.sign :: ' ' :: digits := by
    simp [shown]
  rw [hshown]
  constructor
  · intro h
    have hafter := Text.infix_of_infix_append (by simp [hname, hblank]) h
    rcases infix_cons_iff.mp hafter with hstart | hpiece
    · exact cons_prefix_cons.mp hstart
    · exact absurd (hpiece.subset mem_cons_self) (by simp [hdigits, hblank])
  · rintro ⟨rfl, hstart⟩
    exact (cons_prefix_cons.mpr ⟨rfl, hstart⟩).isInfix.trans (suffix_append _ _).isInfix

/-- A word without blanks and signs is found in the name or the number. -/
theorem infix_word_iff (hblank : ' ' ∉ pattern) (hsign : op.sign ∉ pattern) :
    pattern <:+: op.shown name digits ↔ pattern <:+: name ∨ pattern <:+: digits := by
  constructor
  · intro h
    rcases Text.infix_append_cons hblank h with hname | hafter
    · exact .inl hname
    have hafter : pattern <:+: [] ++ op.sign :: ([] ++ ' ' :: digits) := hafter
    rcases Text.infix_append_cons hsign hafter with hnil | hafter
    · exact .inl (infix_nil.mp hnil ▸ nil_infix)
    rcases Text.infix_append_cons hblank hafter with hnil | hdigits
    · exact .inl (infix_nil.mp hnil ▸ nil_infix)
    · exact .inr hdigits
  · rintro (h | h)
    · exact h.trans (prefix_append _ _).isInfix
    · exact h.trans ⟨name ++ [' ', op.sign, ' '], [], by simp [shown]⟩

/-- Before a blank in the text a sign follows or precedes, so that no number follows a word. -/
theorem not_infix_div_two (hname : ' ' ∉ name) (hdigits : 'v' ∉ digits) :
    ¬ "div 2".toList <:+: op.shown name digits := by
  intro h
  have hshown : op.shown name digits = (name ++ [' ']) ++ op.sign :: ' ' :: digits := by
    simp [shown]
  have hend : ['v', ' ', '2'] <:+: (name ++ [' ']) ++ op.sign :: ' ' :: digits :=
    List.IsInfix.trans ⟨['d', 'i'], [], rfl⟩ (hshown ▸ h)
  rcases Text.infix_append_cons (by cases op <;> decide) hend with hbefore | hafter
  · have htwo : [' ', '2'] <:+: name ++ [' '] := List.IsInfix.trans ⟨['v'], [], rfl⟩ hbefore
    exact absurd (Text.infix_of_infix_append hname htwo).length_le (by decide)
  · exact absurd (hafter.subset mem_cons_self) (by simp [hdigits])

end Shrinking

/-- **The pattern that is read off an argument.**  Subtraction is told by the first digit of the
    number, and division is never told to be by two. -/
theorem Pattern.ofArgument_shown (op : Shrinking) {text : String} {name digits : List Char}
    (htext : text.toList = op.shown name digits) (hname : ∀ c ∈ name, isNameChar c = true)
    (hdigits : ∀ c ∈ digits, c.isDigit = true) : Pattern.ofArgument (.text text) =
      if op = .subtraction ∧ ['1'] <+: digits then .decrement
      else if op = .division ∨ "div".toList <:+: name then .division else .custom := by
  have hfree : ∀ c : Char, isNameChar c = false → c.isDigit = false → c ∉ name ∧ c ∉ digits :=
    fun c hc hc' => ⟨fun h => absurd ((hname c h).symm.trans hc) (by decide),
      fun h => absurd ((hdigits c h).symm.trans hc') (by decide)⟩
  obtain ⟨hminus, hminus'⟩ := hfree '-' (by decide) (by decide)
  obtain ⟨hslash, hslash'⟩ := hfree '/' (by decide) (by decide)
  have hmentions : ∀ s : String, (Name.text s).isMentionedIn (.text text) = true ↔
      s.toList <:+: op.shown name digits := fun s => by
    rw [← htext]
    exact Text.occurs_eq_true_iff
  have hdecrement : ((Name.text "-1").isMentionedIn (.text text) ||
      (Name.text "- 1").isMentionedIn (.text text)) = true ↔
        op = .subtraction ∧ ['1'] <+: digits := by
    rw [Bool.or_eq_true, hmentions, hmentions]
    show '-' :: ['1'] <:+: _ ∨ '-' :: [' ', '1'] <:+: _ ↔ _
    rw [op.infix_shown_iff hminus hminus' (by decide),
      op.infix_shown_iff hminus hminus' (by decide)]
    cases op <;> simp [Shrinking.sign]
  have hhalving : ((Name.text "/2").isMentionedIn (.text text) ||
      (Name.text "div 2").isMentionedIn (.text text)) = true ↔ False := by
    have htwo := op.not_infix_div_two (hfree ' ' (by decide) (by decide)).1
      (fun h => absurd (hdigits 'v' h) (by decide))
    rw [Bool.or_eq_true, hmentions, hmentions, or_iff_left htwo]
    show '/' :: ['2'] <:+: _ ↔ _
    rw [op.infix_shown_iff hslash hslash' (by decide)]
    simp
  have hdivision : ((Name.text "/").isMentionedIn (.text text) ||
      (Name.text "div").isMentionedIn (.text text)) = true ↔
        op = .division ∨ "div".toList <:+: name := by
    have hnumber : ¬ "div".toList <:+: digits :=
      fun h => absurd (hdigits 'd' (h.subset mem_cons_self)) (by decide)
    have hword : "div".toList <:+: op.shown name digits ↔ "div".toList <:+: name :=
      (op.infix_word_iff (by decide) (by cases op <;> decide)).trans (or_iff_left hnumber)
    rw [Bool.or_eq_true, hmentions, hmentions]
    refine or_congr ?_ hword
    show '/' :: [] <:+: _ ↔ _
    rw [op.infix_shown_iff hslash hslash' (by decide)]
    cases op <;> simp [Shrinking.sign]
  unfold Pattern.ofArgument
  exact if_congr hdecrement rfl ((if_congr hhalving rfl (if_congr hdivision rfl rfl)).trans
    (if_neg not_false))

variable {parameter : Name}

theorem Shrinking.ofArgument_argument (op : Shrinking)
    (hname : ∀ c ∈ parameter.shown.toList, isNameChar c = true) (k : Nat) :
    Pattern.ofArgument (op.argument parameter k).shortForm =
      if op = .subtraction ∧ ['1'] <+: Nat.toDigits 10 k then .decrement
      else if op = .division ∨ "div".toList <:+: parameter.shown.toList then .division
      else .custom :=
  Pattern.ofArgument_shown op (op.toList_shortText_argument parameter k) hname
    fun _ hc => Nat.isDigit_of_mem_toDigits (by decide) (by decide) hc

/-- The parameter is mentioned in what is made of it. -/
theorem Shrinking.isMentionedIn_argument (op : Shrinking) (parameter : Name) (k : Nat) :
    (Name.text parameter.shown).isMentionedIn (op.argument parameter k).shortForm = true := by
  show Text.occurs parameter.shown.toList (op.argument parameter k).shortText.toList = true
  rw [Text.occurs_eq_true_iff, toList_shortText_argument]
  exact (prefix_append _ _).isInfix

/-! ### Syntax trees -/

theorem forM_eq_ok {ε α : Type} {f : α → Except ε Unit} {as : List α}
    (h : ∀ a ∈ as, f a = .ok ()) : as.forM f = .ok () := by
  induction as with
  | nil => rfl
  | cons a as ih =>
    obtain ⟨ha, has⟩ := forall_mem_cons.mp h
    show (f a >>= fun _ => as.forM f) = _
    rw [ha]
    exact ih has

theorem Value.IsText.exists_includes {v : Value} (h : v.IsText) (item : String) :
    ∃ b, v.includes (.str item) = .ok b := by
  cases v with
  | str s => exact ⟨_, rfl⟩
  | token k s => exact ⟨_, rfl⟩
  | _ => cases h

section Trees

variable {v : Value} {s : Subroutine}

/-- **The reduction of a syntax tree** is that of its calls, if their arguments are shown as
    texts. -/
theorem Analysis.reduction_eq (hv : v.IsSubroutineTree) (hs : Subroutine.ofValue? v = some s)
    (hrepeat : Stmt.anyRepeat s.body = false)
    (htexts : ∀ c ∈ Stmt.selfCallsFrom s.name 0 s.body, ∀ e ∈ c.arguments,
      e.shortForm.toValue.IsText) (parameter : String) : Analysis.reduction v (.str parameter)
      = .ok (.ofCalls parameter (Stmt.selfCallsFrom s.name 0 s.body)) := by
  have hsearched : (Stmt.selfCallsFrom s.name 0 s.body).forM (fun c =>
      c.arguments.forM fun e => do
        let _ ← ofData (e.shortForm.toValue.includes (.str parameter))) = .ok () := by
    refine forM_eq_ok fun c hc => forM_eq_ok fun e he => ?_
    obtain ⟨b, hb⟩ := (htexts c hc e he).exists_includes parameter
    rw [hb]
    rfl
  have hcalls : (⟨s.name, [], [], s.body⟩ : Subroutine).selfCalls
      = .ok (Stmt.selfCallsFrom s.name 0 s.body) := Subroutine.selfCalls_eq_ok hrepeat
  have hcaller : caller v = .ok ⟨s.name, [], [], s.body⟩ := by
    rw [caller_eq hv hs, hrepeat]
    rfl
  exact bind_eq_ok_iff.mpr ⟨_, hcaller, bind_eq_ok_iff.mpr ⟨_, mapError_eq_ok_iff.mpr hcalls,
    bind_eq_ok_iff.mpr ⟨(), hsearched, rfl⟩⟩⟩

/-- A repeat loop stops the search. -/
theorem Analysis.reduction_of_repeat (hv : v.IsSubroutineTree)
    (hs : Subroutine.ofValue? v = some s) (hrepeat : Stmt.anyRepeat s.body = true)
    (parameter : Value) : Analysis.reduction v parameter = .error (.access Value.repeatFault) := by
  unfold Analysis.reduction
  rw [caller_eq hv hs, hrepeat]
  rfl

end Trees

/-! ### Reports -/

/-- A report gives a pattern and by how much the parameter shrinks. -/
def Value.GivesPattern (report : Value) (pattern factor : String) : Prop :=
  report.get? "pattern" = some (.str pattern) ∧
    report.get? "reduction_factor" = some (.str factor)

theorem Reduction.givesPattern_report_iff (r : Reduction) (p : Pattern) :
    r.report.GivesPattern p.name p.factor ↔ r.pattern = p := by
  show some (Value.str r.pattern.name) = some (.str p.name) ∧
    some (Value.str r.pattern.factor) = some (.str p.factor) ↔ _
  simp only [Option.some_inj, Value.str.injEq]
  cases r.pattern <;> cases p <;> decide

/-- Calls that all give the same argument, which mentions the parameter. -/
theorem Reduction.ofCalls_of_forall {calls : List SelfCall} {e : Expr}
    (hne : calls ≠ []) (h : ∀ c ∈ calls, c.arguments = [e])
    (hmentioned : parameter.isMentionedIn e.shortForm = true) :
    (Reduction.ofCalls parameter calls).pattern = .ofArgument e.shortForm := by
  obtain ⟨c, calls, rfl⟩ := exists_cons_of_ne_nil hne
  have hc := h c mem_cons_self
  rw [Reduction.ofCalls]
  simp [hc, hmentioned]

/-- Whether a subroutine calls itself where the analysis looks. -/
def Subroutine.CallsOpenly (s : Subroutine) : Prop :=
  ∃ t : Stmt, t.Inside s.body ∧ t.openCalls s.name ≠ []

/-- If all calls are given the same, so are those that are reported. -/
theorem Subroutine.arguments_of_forall {s : Subroutine} (hrepeat : Stmt.anyRepeat s.body = false)
    {es : List Expr} (h : ∀ args ∈ s.calls, args = es) :
    (∀ c ∈ Stmt.selfCallsFrom s.name 0 s.body, c.arguments = es) ∧
      (Stmt.selfCallsFrom s.name 0 s.body ≠ [] ↔ s.CallsOpenly) := by
  have hreported := Stmt.map_arguments_selfCallsFrom s.name hrepeat
  constructor
  · intro c hc
    have hmem : c.arguments ∈ (Stmt.preorderAll s.body).flatMap (Stmt.reported s.name) :=
      hreported ▸ mem_map_of_mem hc
    obtain ⟨t, ht, hargs⟩ := mem_flatMap.mp hmem
    refine h _ (mem_flatMap.mpr ⟨t, ht, ?_⟩)
    exact ((t.reported_sublist s.name).trans (t.openCalls_sublist s.name)).subset hargs
  · have hempty : ∀ t : Stmt, t.reported s.name ≠ [] ↔ t.openCalls s.name ≠ [] := by
      intro t
      rw [Stmt.reported]
      split <;> simp_all
    rw [ne_eq, ← map_eq_nil_iff (f := SelfCall.arguments), hreported]
    simp only [flatMap_eq_nil_iff, not_forall, Stmt.mem_preorderAll_iff, CallsOpenly,
      exists_prop, ← hempty, ne_eq]

/-- **When a pattern is reported.**  All calls of a subroutine to itself are given a parameter less
    a number, or divided by it.  A repeat loop makes the analysis fail, and calls where it does not
    look are taken for none.  Otherwise it reports `n-1` for a subtraction of a number whose first
    digit is one, whatever follows; it never reports `n/2`; it reports `n/b` for a division, and
    for a subtraction from a parameter with `div` in its name. -/
theorem Subroutine.reduction_of_shrinking {v : Value} {s : Subroutine} (hv : v.IsSubroutineTree)
    (hs : Subroutine.ofValue? v = some s) {op : Shrinking} {parameter : Name} {k : Nat}
    (hname : ∀ c ∈ parameter.shown.toList, isNameChar c = true)
    (hcalls : ∀ args ∈ s.calls, args = [op.argument parameter k]) : (Stmt.anyRepeat s.body = true →
      Tool.reduction.compute [v, .str parameter.shown]
        = .error (.analysis (.access Value.repeatFault))) ∧
    (Stmt.anyRepeat s.body = false →
      ∃ report, Tool.reduction.compute [v, .str parameter.shown] = .ok report ∧
        (¬ s.CallsOpenly → report.GivesPattern "none" "0") ∧
        (s.CallsOpenly → (report.GivesPattern "n-1" "1" ↔
            op = .subtraction ∧ ['1'] <+: Nat.toDigits 10 k) ∧
          ¬ report.GivesPattern "n/2" "2" ∧
          (report.GivesPattern "n/b" "b" ↔ op = .division ∨
            ¬ ['1'] <+: Nat.toDigits 10 k ∧ "div".toList <:+: parameter.shown.toList) ∧
          (report.GivesPattern "custom" "unknown" ↔ op = .subtraction ∧
            ¬ ['1'] <+: Nat.toDigits 10 k ∧ ¬ "div".toList <:+: parameter.shown.toList))) := by
  constructor
  · intro hrepeat
    show (Tool.ofAnalysis (Analysis.reduction v _) >>= fun r => _) = _
    rw [Analysis.reduction_of_repeat hv hs hrepeat]
    rfl
  · intro hrepeat
    obtain ⟨harguments, hopen⟩ := Subroutine.arguments_of_forall hrepeat hcalls
    have hreduction := Analysis.reduction_eq hv hs hrepeat (by
      intro c hc e he
      rw [harguments c hc] at he
      obtain rfl := List.mem_singleton.mp he
      rfl) parameter.shown
    have hcompute : Tool.reduction.compute [v, .str parameter.shown]
        = .ok (Reduction.ofCalls parameter.shown (Stmt.selfCallsFrom s.name 0 s.body)).report := by
      show (Tool.ofAnalysis (Analysis.reduction v _) >>= fun r => _) = _
      rw [hreduction]
      rfl
    refine ⟨_, hcompute, fun hclosed => ?_, fun hcallsOpenly => ?_⟩
    · rw [← hopen, ne_eq, not_not] at hclosed
      rw [hclosed]
      exact ⟨rfl, rfl⟩
    · have hpattern := (Reduction.ofCalls_of_forall (hopen.mpr hcallsOpenly) harguments
        (op.isMentionedIn_argument parameter k)).trans
          (op.ofArgument_argument hname k)
      have hgives := Reduction.givesPattern_report_iff
        (.ofCalls parameter.shown (Stmt.selfCallsFrom s.name 0 s.body))
      rw [hpattern] at hgives
      refine ⟨(hgives .decrement).trans ?_, (hgives .halving).not.mpr ?_,
        (hgives .division).trans ?_, (hgives .custom).trans ?_⟩
      all_goals cases op <;> split_ifs <;> simp_all

/-- A parameter less ten is reported as one less one. -/
theorem Subroutine.reduction_of_shrinking_ten :
    let s : Subroutine := ⟨"f", [⟨"n", .simple⟩], [],
      [.ret (.call "f" [Shrinking.subtraction.argument "n" 10])]⟩
    s.toValue.IsSubroutineTree ∧ Stmt.anyRepeat s.body = false ∧ s.CallsOpenly ∧
      ∃ report, Tool.reduction.compute [s.toValue, .str "n"] = .ok report ∧
        report.GivesPattern "n-1" "1" := by
  intro s
  have htree : s.toValue.IsSubroutineTree :=
    .mk rfl (List.forall_mem_singleton.mpr ⟨_, _, _, _, rfl⟩)
      (List.forall_mem_singleton.mpr (.ret (.call rfl (List.forall_mem_singleton.mpr
        (.binary rfl (.plainVar rfl) (.number (.whole 10)))))))
  have hopen : s.CallsOpenly := ⟨_, .here (List.mem_singleton.mpr rfl), List.cons_ne_nil _ _⟩
  have hname : ∀ c ∈ (Name.text "n").shown.toList, isNameChar c = true :=
    List.forall_mem_singleton.mpr (by decide)
  have hcalls : ∀ args ∈ s.calls, args = [Shrinking.subtraction.argument "n" 10] :=
    fun args hargs => List.mem_singleton.mp hargs
  obtain ⟨report, hreport, -, hpatterns⟩ := (reduction_of_shrinking htree rfl hname hcalls).2 rfl
  exact ⟨htree, rfl, hopen, report, hreport, (hpatterns hopen).1.mpr ⟨rfl, by decide⟩⟩

/-- In a text, a half is reported as any other part, and ten less as one less. -/
theorem half_and_ten_less_misread : (["f(n) begin return f(n / 2) end begin end",
      "f(n) begin return f(n - 10) end begin end"].map fun text =>
      (programOfText text).toOption.toList.flatMap fun program =>
        program.subroutineNodes.map fun v =>
          (Tool.reduction.compute [v, .str "n"]).toOption.bind fun report =>
            (report.get? "pattern").bind Value.text?) = [[some "n/b"], [some "n-1"]] := by
  decide +kernel

end Ordo
