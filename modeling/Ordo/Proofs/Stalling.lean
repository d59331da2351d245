import Ordo.Proofs.Solvers

namespace Ordo

/-!
# Recurrences that do not shrink

A recurrence `T(n) = aT(n/b) + f` with `b ≤ 1` and a recurrence `T(n) = T(n-0) + f` never come to
an end.  The master theorem divides by the logarithm of `b` and has no answer for them.  The other
procedures write their answers without a look at the divisor or the decrement.

* `IsSmall`, `exists_number_le_iff` — the digits of a number that is at most a given digit;
* `not_exists_logBase` — there is no logarithm to a base of at most one;
* `exists_small_divide_iff`, `Linear.exists_read_zero_iff` — which texts are read as a recurrence
  that does not shrink, by the runs that are found in them;
* `Solver.Stalls` — a success for a recurrence that does not shrink;
* `Solver.stalls_iff` — the texts for which each procedure reports one.
-/

open List String

namespace Recurrence

open Text Text.Template
open Decimal (digitLimit ofDigits digitRunFrom)

/-! ### Small numbers -/

theorem ofDigits_concat (ds : List Nat) (d : Nat) :
    ofDigits (ds ++ [d]) = 10 * ofDigits ds + d := by
  rw [ofDigits, foldl_append]
  rfl

theorem ofDigits_eq_zero_iff {ds : List Nat} : ofDigits ds = 0 ↔ ∀ d ∈ ds, d = 0 := by
  induction ds using reverseRecOn with
  | nil => simp [ofDigits]
  | append_singleton ds d ih =>
    rw [ofDigits_concat, forall_mem_append, forall_mem_singleton, ← ih]
    omega

variable {cs f : List Char} {t : Template} {cost : Piece} {runs : List (List Char)} {text : String}

/-- The digits that a run of decimal digits stands for. -/
theorem digitRunFrom_of_isDecimal (h : ∀ c ∈ cs, isDecimal c = true)
    (parted : Bool) : digitRunFrom parted cs = (cs.filterMap digitValue?, []) := by
  induction cs generalizing parted with
  | nil => rfl
  | cons c cs ih =>
    obtain ⟨hc, hcs⟩ := forall_mem_cons.mp h
    obtain ⟨d, hd⟩ := Option.isSome_iff_exists.mp hc
    simp [digitRunFrom, hd, ih hcs]

/-- A run of decimal digits is read as the number that it stands for, unless it is too long. -/
theorem number_eq_ok_iff (h : digits.Takes cs) {n : Nat} :
    number cs = .ok n ↔ cs.length ≤ digitLimit ∧ n = ofDigits (cs.filterMap digitValue?) := by
  have hdecimal : ∀ c ∈ cs, isDecimal c = true := h.accepted
  have hne : cs ≠ [] := length_pos_iff.mp h.enough
  obtain ⟨hfirst, hlast⟩ := head?_of_isDecimal hdecimal
  have hexists := exists_readWhole_iff hne hdecimal
  cases hread : Decimal.readWhole (ofList cs) with
  | error e =>
    have hlong : ¬cs.length ≤ digitLimit := by simpa [hread] using hexists
    simp [number, hread, hlong]
  | ok i =>
    have hshort : cs.length ≤ digitLimit := hexists.mp ⟨i, hread⟩
    obtain rfl : i = ofDigits (cs.filterMap digitValue?) := by
      simp only [Decimal.readWhole, toList_ofList, bare_of_isDecimal hfirst hlast,
        sign_of_isDecimal hfirst, Decimal.digitRun, digitRunFrom_of_isDecimal hdecimal] at hread
      split at hread
      · cases hread
      · split at hread
        · cases hread
        · simpa using hread.symm
    simp [number, hread, hshort, eq_comm]

/-- Digits of a number that is at most a given digit: not too many, and nothing but zeros of any
    script before the last of them. -/
def IsSmall (most : Nat) (cs : List Char) : Prop :=
  cs.length ≤ digitLimit ∧ ∃ zeros c d, cs = zeros ++ [c]
    ∧ (∀ z ∈ zeros, digitValue? z = some 0) ∧ digitValue? c = some d ∧ d ≤ most

/-- **Which numbers are small**, by their digits. -/
theorem exists_number_le_iff {most : Nat} (hmost : most < 10)
    (h : digits.Takes cs) : (∃ n, number cs = .ok n ∧ n ≤ most) ↔ IsSmall most cs := by
  have hdecimal : ∀ c ∈ cs, isDecimal c = true := h.accepted
  rcases eq_nil_or_concat' cs with hnil | ⟨front, c, hcs⟩
  · exact absurd hnil (length_pos_iff.mp h.enough)
  obtain ⟨hfront, hlast⟩ := forall_mem_append.mp (hcs ▸ hdecimal)
  obtain ⟨d, hd⟩ := Option.isSome_iff_exists.mp (hlast c mem_cons_self)
  -- `most` has one digit, so all that stands before the last digit counts at least ten or nothing
  have hvalue : ofDigits (cs.filterMap digitValue?)
      = 10 * ofDigits (front.filterMap digitValue?) + d := by
    rw [hcs, filterMap_append, filterMap_cons_some hd, filterMap_nil,
      ofDigits_concat]
  have hzeros : ofDigits (front.filterMap digitValue?) = 0
      ↔ ∀ z ∈ front, digitValue? z = some 0 := by
    rw [ofDigits_eq_zero_iff]
    constructor
    · intro hall z hz
      obtain ⟨x, hx⟩ := Option.isSome_iff_exists.mp (hfront z hz)
      rw [hx, hall x (mem_filterMap.mpr ⟨z, hz, hx⟩)]
    · intro hall x hx
      obtain ⟨z, hz, hzx⟩ := mem_filterMap.mp hx
      simpa [hall z hz] using hzx.symm
  simp only [number_eq_ok_iff h, hvalue]
  constructor
  · rintro ⟨n, ⟨hshort, rfl⟩, hn⟩
    exact ⟨hshort, front, c, d, hcs, hzeros.mp (by omega), hd, by omega⟩
  · rintro ⟨hshort, front', c', d', hcs', hfront', hd', hle⟩
    obtain ⟨rfl, hpair⟩ := append_inj' (hcs.symm.trans hcs') rfl
    obtain rfl := singleton_inj.mp hpair
    obtain rfl : d = d' := Option.some.inj (hd.symm.trans hd')
    have hzero := hzeros.mpr hfront'
    exact ⟨_, ⟨hshort, rfl⟩, by omega⟩

/-! ### Logarithms to a small base -/

/-- **There is no logarithm to a base of at most one.** -/
theorem not_exists_logBase {base n : Nat} (hbase : base ≤ 1) : ¬∃ x, logBase base n = .ok x := by
  rintro ⟨x, hx⟩
  obtain ⟨top, -, bottom, hbottom, hx⟩ := bind₂_eq_ok_iff.mp hx
  -- zero has no logarithm, and that of one is nothing to divide by
  obtain rfl | rfl : base = 0 ∨ base = 1 := by omega
  · cases hbottom
  · obtain rfl : 0.0 = bottom := Except.ok.inj hbottom
    rw [if_pos (by decide)] at hx
    cases hx

/-! ### Readings -/

/-- The runs of a template that keeps two numbers and a cost. -/
theorem exists_runs_of_search (ht : t.filter Piece.kept = [digits, digits, cost])
    (h : t.search cs = some runs) : ∃ a b f, runs = [a, b, f] ∧ digits.Takes b := by
  have htakes := takes_of_search h
  rw [ht] at htakes
  obtain _ | ⟨ha, hrest⟩ := htakes
  obtain _ | ⟨hb, hrest⟩ := hrest
  obtain _ | ⟨hf, hrest⟩ := hrest
  cases hrest
  exact ⟨_, _, _, rfl, hb⟩

theorem Divide.ofFit_eq_some_iff {a b : List Char} {d : Divide} :
    ofFit [a, b, f] = .ok (some d) ↔ number a = .ok d.branches ∧ number b = .ok d.factor
      ∧ ofList (trim f) = d.cost := by
  simp only [ofFit, ofRuns, bind_eq_ok_iff, pure_eq_ok_iff]
  constructor
  · rintro ⟨_, ⟨_, ha, _, hb, rfl⟩, ⟨⟩⟩
    exact ⟨ha, hb, rfl⟩
  · rintro ⟨ha, hb, hf⟩
    exact ⟨d, ⟨_, ha, _, hb, by rw [hf]⟩, rfl⟩

/-- The numbers `a` and `b` of a recurrence in a text, as a template finds them: `b` is at most
    one, and the `k`-th power of `a` can be written. -/
def FindsSmallDivisor (t : Template) (k : Nat) (text : String) : Prop :=
  ∃ a b f n, t.search text.toList = some [a, b, f] ∧ IsSmall 1 b ∧ number a = .ok n
    ∧ n ^ k < 10 ^ digitLimit

/-- What is read by a template that keeps two numbers and a cost, if its divisor is small. -/
theorem exists_small_divide_iff {k : Nat} (ht : t.filter Piece.kept = [digits, digits, cost]) :
    (∃ d, (t.search text.toList).elim (.ok none) Divide.ofFit = .ok (some d) ∧ d.factor ≤ 1
      ∧ d.branches ^ k < 10 ^ digitLimit) ↔ FindsSmallDivisor t k text := by
  constructor
  · rintro ⟨d, hread, hfactor, hbranches⟩
    cases hsearch : t.search text.toList with
    | none => simp [hsearch] at hread
    | some runs =>
      obtain ⟨a, b, f, rfl, hb⟩ := exists_runs_of_search ht hsearch
      rw [hsearch] at hread
      obtain ⟨hbranch, hdivisor, -⟩ := Divide.ofFit_eq_some_iff.mp hread
      have hsmall := (exists_number_le_iff (by decide) hb).mp ⟨_, hdivisor, hfactor⟩
      exact ⟨a, b, f, _, hsearch, hsmall, hbranch, hbranches⟩
  · rintro ⟨a, b, f, n, hsearch, hsmall, ha, hn⟩
    obtain ⟨_, _, _, hruns, hb⟩ := exists_runs_of_search ht hsearch
    obtain ⟨rfl, rfl, rfl⟩ : _ ∧ _ ∧ _ := by simpa using hruns
    obtain ⟨m, hm, hle⟩ := (exists_number_le_iff (by decide) hb).mpr hsmall
    refine ⟨⟨n, m, ofList (trim f)⟩, ?_, hle, hn⟩
    rw [hsearch]
    exact Divide.ofFit_eq_some_iff.mpr ⟨ha, hm, rfl⟩

theorem Tree.read_eq_elim (text : String) :
    Tree.read text = (Tree.form.search text.toList).elim (.ok none) Divide.ofFit := by
  rw [Tree.read]
  cases Tree.form.search text.toList <;> rfl

theorem Substitution.readDivide_eq_elim (text : String) :
    readDivide text = (divideForm.search text.toList).elim (.ok none) Divide.ofFit := by
  rw [readDivide]
  cases divideForm.search text.toList <;> rfl

/-- The runs of a linear recurrence. -/
theorem Linear.exists_runs_of_search
    (h : Linear.form.search cs = some runs) : ∃ k f, runs = [k, f] ∧ digits.Takes k := by
  have htakes : List.Forall₂ Piece.Takes [digits, brief] runs := takes_of_search h
  obtain _ | ⟨hk, hrest⟩ := htakes
  obtain _ | ⟨hf, hrest⟩ := hrest
  cases hrest
  exact ⟨_, _, rfl, hk⟩

theorem Linear.read_eq_some_iff {k : List Char} {l : Linear}
    (h : Linear.form.search text.toList = some [k, f]) : Linear.read text = .ok (some l)
      ↔ number k = .ok l.decrement ∧ ofList (trim f) = l.cost := by
  simp only [Linear.read, h, bind_eq_ok_iff, pure_eq_ok_iff, Option.some.injEq]
  constructor
  · rintro ⟨_, hk, rfl⟩
    exact ⟨hk, rfl⟩
  · rintro ⟨hk, hf⟩
    exact ⟨_, hk, by rw [hf]⟩

/-- A linear recurrence in a text whose decrement is zero. -/
def FindsNoDecrement (text : String) : Prop :=
  ∃ k f, Linear.form.search text.toList = some [k, f] ∧ IsSmall 0 k

/-- What is read as a linear recurrence, if its decrement is zero. -/
theorem Linear.exists_read_zero_iff :
    (∃ l, Linear.read text = .ok (some l) ∧ l.decrement = 0) ↔ FindsNoDecrement text := by
  constructor
  · rintro ⟨l, hl, hzero⟩
    cases hsearch : Linear.form.search text.toList with
    | none => simp [Linear.read, hsearch] at hl
    | some runs =>
      obtain ⟨k, f, rfl, hk⟩ := exists_runs_of_search hsearch
      have hnumber := ((read_eq_some_iff hsearch).mp hl).1
      exact ⟨k, f, hsearch,
        (exists_number_le_iff (by decide) hk).mp ⟨_, hnumber, Nat.le_of_eq hzero⟩⟩
  · rintro ⟨k, f, hsearch, hsmall⟩
    obtain ⟨_, _, heq, hk⟩ := exists_runs_of_search hsearch
    obtain ⟨rfl, rfl⟩ : _ ∧ _ := by simpa using heq
    obtain ⟨n, hn, hle⟩ := (exists_number_le_iff (by decide) hk).mpr hsmall
    exact ⟨⟨n, ofList (trim f)⟩, (read_eq_some_iff hsearch).mpr ⟨hn, rfl⟩,
      Nat.le_zero.mp hle⟩

end Recurrence

/-! ### Answers -/

/-- The data of a tree do not name a decrement. -/
theorem Recurrence.Tree.get?_decrement_of_describe {d : Recurrence.Divide} {v : Value}
    (h : Recurrence.Tree.describe d = .ok v) : v.get? "decrement" = none := by
  obtain ⟨nodes, -, work, -, rfl⟩ := bind₂_pure_eq_ok_iff.mp h
  rfl

namespace Solver

open Recurrence
open Decimal (digitLimit)

/-- An answer that is a success for a recurrence that does not shrink. -/
def IsStall (v : Value) : Prop :=
  v.get? "success" = some (.bool true) ∧
    ((∃ b : Int, b ≤ 1 ∧ v.get? "b" = some (.int b)) ∨ v.get? "decrement" = some (.int 0))

/-- Whether a procedure gives such an answer for a text. -/
def Stalls (s : Solver) (text : String) : Prop := ∃ v, s.run [.str text] = .ok v ∧ IsStall v

theorem not_isStall_failure (es : List (String × Value)) :
    ¬IsStall (.dict (("success", .bool false) :: es)) := by
  rintro ⟨hsuccess, -⟩
  cases hsuccess

variable {v : Value} {b k : Nat} {text : String}

theorem isStall_iff_of_divide
    (hsuccess : v.get? "success" = some (.bool true)) (hb : v.get? "b" = some (.int b))
    (hdecrement : v.get? "decrement" = none) : IsStall v ↔ b ≤ 1 := by
  simp only [IsStall, hsuccess, hb, hdecrement, Option.some.injEq, Value.int.injEq, true_and,
    exists_eq_right', reduceCtorEq, or_false]
  omega

theorem isStall_iff_of_linear
    (hsuccess : v.get? "success" = some (.bool true)) (hb : v.get? "b" = none)
    (hdecrement : v.get? "decrement" = some (.int k)) : IsStall v ↔ k = 0 := by
  simp [IsStall, hsuccess, hb, hdecrement]

/-- Only what is read is answered with success. -/
theorem exists_isStall_iff {α : Type} {read : Except SolverError (Option α)}
    {answer : Option α → Except SolverError Value} (hnone : ∀ v, answer none = .ok v → ¬IsStall v) :
    (∃ v, ofEquation (read >>= answer) = .ok v ∧ IsStall v)
      ↔ ∃ d, read = .ok (some d) ∧ ∃ v, answer (some d) = .ok v ∧ IsStall v := by
  simp only [ofEquation_eq_ok_iff, bind_eq_ok_iff]
  constructor
  · rintro ⟨v, ⟨found, hread, hanswer⟩, hstall⟩
    cases found with
    | none => exact absurd hstall (hnone v hanswer)
    | some d => exact ⟨d, hread, v, hanswer, hstall⟩
  · rintro ⟨d, hread, v, hanswer, hstall⟩
    exact ⟨v, ⟨some d, hread, hanswer⟩, hstall⟩

/-- The powers of a divisor of at most one are short. -/
theorem pow_lt_of_le_one (hb : b ≤ 1) (k : Nat) : b ^ k < 10 ^ digitLimit := by
  calc b ^ k ≤ 1 ^ k := Nat.pow_le_pow_left hb k
    _ = 1 := Nat.one_pow k
    _ < 10 ^ digitLimit := Nat.one_lt_pow (by decide) (by decide)

/-- An answer about a dividing recurrence, if it is written whenever the powers of both numbers
    are. -/
theorem exists_isStall_divide_iff {answer : Except SolverError Value} {d : Divide}
    (hentries : ∀ v, answer = .ok v → v.get? "success" = some (.bool true)
      ∧ v.get? "b" = some (.int d.factor) ∧ v.get? "decrement" = none)
    (hwritten : (∃ v, answer = .ok v)
      ↔ d.branches ^ k < 10 ^ digitLimit ∧ d.factor ^ k < 10 ^ digitLimit) :
    (∃ v, answer = .ok v ∧ IsStall v)
      ↔ d.factor ≤ 1 ∧ d.branches ^ k < 10 ^ digitLimit := by
  have hstall : ∀ v, answer = .ok v → (IsStall v ↔ d.factor ≤ 1) := by
    intro v hv
    obtain ⟨hsuccess, hb, hdecrement⟩ := hentries v hv
    exact isStall_iff_of_divide hsuccess hb hdecrement
  constructor
  · rintro ⟨v, hv, hv'⟩
    exact ⟨(hstall v hv).mp hv', (hwritten.mp ⟨v, hv⟩).1⟩
  · rintro ⟨hfactor, hbranches⟩
    obtain ⟨v, hv⟩ := hwritten.mpr ⟨hbranches, pow_lt_of_le_one hfactor k⟩
    exact ⟨v, hv, (hstall v hv).mpr hfactor⟩

theorem stalls_recursionTree_iff :
    Stalls .recursionTree text ↔ FindsSmallDivisor Tree.form 3 text := by
  rw [Stalls, ← exists_small_divide_iff rfl, ← Tree.read_eq_elim]
  refine (exists_isStall_iff ?_).trans (exists_congr fun d => and_congr_right fun _ =>
    exists_isStall_divide_iff ?_ Tree.exists_describe_iff)
  · rintro v ⟨⟩
    exact not_isStall_failure _
  · intro v hv
    obtain ⟨hsuccess, -, hb, -, -⟩ := Tree.get?_of_describe hv
    exact ⟨hsuccess, hb, Tree.get?_decrement_of_describe hv⟩

theorem stalls_divideSubstitution_iff :
    Stalls .divideSubstitution text ↔ FindsSmallDivisor Substitution.divideForm 2 text := by
  rw [Stalls, ← exists_small_divide_iff rfl, ← Substitution.readDivide_eq_elim]
  refine (exists_isStall_iff ?_).trans (exists_congr fun d => and_congr_right fun _ =>
    exists_isStall_divide_iff ?_ ?_)
  · rintro v ⟨⟩
    exact not_isStall_failure _
  · intro v hv
    obtain ⟨lines, -, rfl⟩ := bind_pure_eq_ok_iff.mp hv
    exact ⟨rfl, rfl, rfl⟩
  · rw [← Substitution.exists_divideSteps_iff]
    constructor
    · rintro ⟨v, hv⟩
      obtain ⟨lines, hlines, -⟩ := bind_eq_ok_iff.mp hv
      exact ⟨lines, hlines⟩
    · rintro ⟨lines, hlines⟩
      exact ⟨_, bind_eq_ok_iff.mpr ⟨lines, hlines, rfl⟩⟩

theorem stalls_substitution_iff : Stalls .substitution text ↔ FindsNoDecrement text := by
  rw [Stalls, ← Linear.exists_read_zero_iff]
  refine (exists_isStall_iff ?_).trans (exists_congr fun l => and_congr_right fun _ => ?_)
  · rintro v ⟨⟩
    exact not_isStall_failure _
  · constructor
    · rintro ⟨v, hv, hstall⟩
      obtain ⟨lines, -, rfl⟩ := bind_pure_eq_ok_iff.mp hv
      exact (isStall_iff_of_linear rfl rfl rfl).mp hstall
    · intro hzero
      have hshort : l.decrement * 3 < 10 ^ digitLimit := by
        rw [hzero]
        exact Nat.pow_pos (by decide)
      obtain ⟨lines, hlines⟩ : ∃ lines, Substitution.steps l.decrement l.cost 4 = .ok lines :=
        Substitution.exists_steps_iff.mpr hshort
      exact ⟨_, bind_eq_ok_iff.mpr ⟨lines, hlines, rfl⟩,
        (isStall_iff_of_linear rfl rfl rfl).mpr hzero⟩

/-- A success of the master theorem has a logarithm to the divisor. -/
theorem not_stalls_master (text : String) : ¬Stalls .master text := by
  intro h
  obtain ⟨m, hsolve, v, hv, hstall⟩ := (exists_isStall_iff (by
    rintro v ⟨⟩
    exact not_isStall_failure _)).mp h
  obtain rfl := pure_eq_ok_iff.mp hv
  obtain ⟨found, -, hfound⟩ := bind_eq_ok_iff.mp hsolve
  cases found with
  | none => cases hfound
  | some d =>
    obtain ⟨m', hm, hsome⟩ := bind_eq_ok_iff.mp hfound
    obtain rfl : m' = m := Option.some.inj (pure_eq_ok_iff.mp hsome)
    obtain ⟨exponent, hlog, case, -, rfl⟩ := bind₂_pure_eq_ok_iff.mp hm
    have hfactor : d.factor ≤ 1 := (isStall_iff_of_divide rfl rfl rfl).mp hstall
    exact not_exists_logBase hfactor ⟨exponent, hlog⟩

/-- **Which procedures succeed on a recurrence that does not shrink.**  The master theorem never
    does.  The recursion tree and the two substitutions do so whenever the text that they look for
    has a divisor of at most one or no decrement, and their answer can be written. -/
theorem stalls_iff (text : String) : ¬Stalls .master text
    ∧ (Stalls .recursionTree text ↔ FindsSmallDivisor Tree.form 3 text)
    ∧ (Stalls .divideSubstitution text ↔ FindsSmallDivisor Substitution.divideForm 2 text)
    ∧ (Stalls .substitution text ↔ FindsNoDecrement text) :=
  ⟨not_stalls_master text, stalls_recursionTree_iff, stalls_divideSubstitution_iff,
    stalls_substitution_iff⟩

/-- **Recurrences in their usual form that do not shrink** are answered with success by the
    recursion tree and by both substitutions. -/
theorem stalls_of_usual_form {a : Nat} {cost : String} (s : Spacing)
    (ha : a ^ 3 < 10 ^ digitLimit) (hb : b ≤ 1) (hcost : IsCost cost) :
    Stalls .recursionTree (s.branching a b cost) ∧ Stalls .divideSubstitution (s.branching a b cost)
    ∧ Stalls .substitution (s.linear 0 cost) := by
  have hdivide : ∀ {answer : Outcome Value} {es : List (String × Value)},
      Finds answer (("a", .int a) :: ("b", .int b) :: es) → ∃ v, answer = .ok v ∧ IsStall v := by
    rintro answer es ⟨v, hv, hentries⟩
    simp only [forall_mem_cons] at hentries
    exact ⟨v, hv, hentries.1, .inl ⟨b, by omega, hentries.2.2.1⟩⟩
  have hlinear : ∀ {answer : Outcome Value} {es : List (String × Value)},
      Finds answer (("decrement", .int (0 : Nat)) :: es) → ∃ v, answer = .ok v ∧ IsStall v := by
    rintro answer es ⟨v, hv, hentries⟩
    simp only [forall_mem_cons] at hentries
    exact ⟨v, hv, hentries.1, .inr hentries.2.1⟩
  exact ⟨hdivide (finds_recursionTree s ha (pow_lt_of_le_one hb 3) hcost),
    hdivide (finds_divideSubstitution s (pow_lt_of_pow_lt (by decide) ha) (pow_lt_of_le_one hb 2)
      hcost),
    hlinear (finds_substitution s (Nat.pow_pos (by decide)) hcost)⟩

/-- Calls that are as large as the problem itself, or are made on a quotient by zero. -/
theorem stalls_without_end :
    Stalls .recursionTree "T(n) = 2T(n/1) + O(n)" ∧ Stalls .recursionTree "T(n) = 2T(n/0) + O(n)"
    ∧ Stalls .divideSubstitution "T(n) = 2T(n/1) + O(n)"
    ∧ Stalls .divideSubstitution "T(n) = 2T(n/0) + O(n)"
    ∧ Stalls .substitution "T(n) = T(n-0) + O(n)" := by
  have hcube : 2 ^ 3 < 10 ^ digitLimit :=
    Nat.lt_of_lt_of_le (by decide) (Nat.le_self_pow (by decide) 10)
  have hone := stalls_of_usual_form (b := 1) Spacing.plain hcube (by decide) isCost_linear
  have hzero := stalls_of_usual_form (b := 0) Spacing.plain hcube (by decide) isCost_linear
  rw [show Spacing.branching _ 2 1 "n" = "T(n) = 2T(n/1) + O(n)" by decide +kernel,
    show Spacing.linear _ 0 "n" = "T(n) = T(n-0) + O(n)" by decide +kernel] at hone
  rw [show Spacing.branching _ 2 0 "n" = "T(n) = 2T(n/0) + O(n)" by decide +kernel] at hzero
  exact ⟨hone.1, hzero.1, hone.2.1, hzero.2.1, hone.2.2⟩

end Solver

end Ordo
