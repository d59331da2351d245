import Ordo.Proofs.Lexing
import Ordo.Proofs.Results
import Ordo.Proofs.Soundness
import Ordo.Syntax.Build

namespace Ordo

/-!
# Numerals of a text

A numeral that was cut from a text is a run of decimal digits, perhaps with a point and more
digits.  With a point it can always be read, and without one if it is not too long.

* `exists_numberOf_iff` — which of them can be read;
* `Token.isLongWhole`, `Token.exists_value_iff` — a token has a value unless it is a whole number
  with too many digits.
-/

open List String

open Text (isDecimal)

open Decimal (digitRunFrom digitLimit readWhole digitRun)

/-! ### Digits -/

/-- A decimal digit is one of the ten from some script's zero on. -/
theorem exists_zero_of_isDecimal {c : Char} (h : isDecimal c = true) :
    ∃ z ∈ Text.decimalZeros, z ≤ c.toNat ∧ c.toNat < z + 10 := by
  rw [isDecimal, Text.digitValue?] at h
  split at h
  · split at h
    · rename_i hrange
      have hlow : 48 ≤ c.toNat := hrange.1
      have hhigh : c.toNat ≤ 57 := hrange.2
      exact ⟨48, by decide, hlow, by omega⟩
    · simp at h
  · rw [Text.digitOfCode?, Option.isSome_map, find?_isSome] at h
    simpa using h

/-- No blank stands among the digits of a script. -/
theorem not_isNumeralBlank_of_isDecimal {c : Char} (h : isDecimal c = true) :
    Decimal.isNumeralBlank c = false := by
  obtain ⟨z, hz, hlow, hhigh⟩ := exists_zero_of_isDecimal h
  have hzero : 48 ≤ z := by
    have hall : Text.decimalZeros.all (48 ≤ ·) = true := by decide
    simpa using all_eq_true.mp hall z hz
  have hwide : Text.wideBlanks.all (fun w => !(z ≤ w && w < z + 10)) = true := by
    have hall : Text.decimalZeros.all
        (fun z => Text.wideBlanks.all fun w => !(z ≤ w && w < z + 10)) = true := by decide
    exact all_eq_true.mp hall z hz
  rw [Decimal.isNumeralBlank, Bool.and_eq_false_iff]
  refine .inl ?_
  rw [Text.isBlank]
  split
  · simp
    omega
  · rw [Bool.eq_false_iff]
    intro hblank
    have hmem := all_eq_true.mp hwide c.toNat (by simpa using hblank)
    simp [hlow, hhigh] at hmem

variable {cs rest : List Char} {t : Token}

/-- A run of digits ends where nothing can go on with it. -/
theorem digitRunFrom_append (h : ∀ c ∈ cs, isDecimal c = true)
    (hrest : ∀ parted, digitRunFrom parted rest = ([], rest)) (parted : Bool) :
    ∃ ds, ds.length = cs.length ∧ digitRunFrom parted (cs ++ rest) = (ds, rest) := by
  induction cs generalizing parted with
  | nil => exact ⟨[], rfl, hrest parted⟩
  | cons c cs ih =>
    obtain ⟨d, hd⟩ := Option.isSome_iff_exists.mp (h c mem_cons_self)
    obtain ⟨ds, hlength, hrun⟩ := ih (fun c hc => h c (mem_cons_of_mem _ hc)) true
    exact ⟨d :: ds, by simp [hlength], by simp [digitRunFrom, hd, hrun]⟩

theorem digitRunFrom_nil (parted : Bool) : digitRunFrom parted [] = ([], []) := rfl

theorem digitRunFrom_point (parted : Bool) (cs : List Char) :
    digitRunFrom parted ('.' :: cs) = ([], '.' :: cs) := by
  have hpoint : Text.digitValue? '.' = none := by decide
  simp [digitRunFrom, hpoint]

/-! ### Numerals -/

/-- There is nothing to leave out around a text that begins and ends with a digit. -/
theorem bare_of_isDecimal (hfirst : ∀ c ∈ cs.head?, isDecimal c = true)
    (hlast : ∀ c ∈ cs.reverse.head?, isDecimal c = true) : Decimal.bare cs = cs := by
  have hkeep : ∀ as : List Char, (∀ c ∈ as.head?, isDecimal c = true) →
      as.dropWhile Decimal.isNumeralBlank = as := by
    intro as has
    cases as with
    | nil => rfl
    | cons a as => simp [not_isNumeralBlank_of_isDecimal (has a rfl)]
  rw [Decimal.bare, hkeep cs hfirst, hkeep cs.reverse hlast, reverse_reverse]

theorem sign_of_isDecimal (hfirst : ∀ c ∈ cs.head?, isDecimal c = true) :
    Decimal.sign cs = (false, cs) := by
  unfold Decimal.sign
  split
  · exact absurd (hfirst '-' rfl) (by decide)
  · exact absurd (hfirst '+' rfl) (by decide)
  · rfl

theorem head?_of_isDecimal (h : ∀ c ∈ cs, isDecimal c = true) :
    (∀ c ∈ cs.head?, isDecimal c = true) ∧
      ∀ c ∈ cs.reverse.head?, isDecimal c = true :=
  ⟨fun c hc => h c (mem_of_mem_head? hc),
    fun c hc => h c (mem_reverse.mp (mem_of_mem_head? hc))⟩

/-- A whole number is read unless it is too long. -/
theorem exists_readWhole_iff (hne : cs ≠ []) (h : ∀ c ∈ cs, isDecimal c = true) :
    (∃ i, readWhole (ofList cs) = .ok i) ↔ cs.length ≤ digitLimit := by
  obtain ⟨hfirst, hlast⟩ := head?_of_isDecimal h
  obtain ⟨ds, hlength, hrun⟩ := digitRunFrom_append h digitRunFrom_nil false
  have hds : ds ≠ [] := by
    rw [← length_pos_iff, hlength, length_pos_iff]
    exact hne
  rw [append_nil] at hrun
  simp only [readWhole, toList_ofList, bare_of_isDecimal hfirst hlast,
    sign_of_isDecimal hfirst, digitRun, hrun]
  by_cases hlong : digitLimit < cs.length
  · simp [hds, hlength, hlong]
  · simp [hds, hlength, hlong, Nat.le_of_not_lt hlong]

/-- A real number is read. -/
theorem exists_readReal {whole fraction : List Char} (hne : whole ≠ [])
    (hwhole : ∀ c ∈ whole, isDecimal c = true) (hne' : fraction ≠ [])
    (hfraction : ∀ c ∈ fraction, isDecimal c = true) :
    ∃ f, Decimal.readReal (ofList (whole ++ '.' :: fraction)) = .ok f := by
  have hfirst : ∀ c ∈ (whole ++ '.' :: fraction).head?, isDecimal c = true := by
    obtain ⟨a, as, rfl⟩ := exists_cons_of_ne_nil hne
    simpa using hwhole a mem_cons_self
  have hlast : ∀ c ∈ (whole ++ '.' :: fraction).reverse.head?, isDecimal c = true := by
    obtain ⟨a, as, hreverse⟩ : ∃ a as, fraction.reverse = a :: as :=
      exists_cons_of_ne_nil (by simpa using hne')
    have ha : a ∈ fraction := mem_reverse.mp (hreverse ▸ mem_cons_self)
    simpa [hreverse] using hfraction a ha
  obtain ⟨ds, hlength, hrun⟩ := digitRunFrom_append hwhole
    (fun parted => digitRunFrom_point parted fraction) false
  obtain ⟨ds', -, hrun'⟩ := digitRunFrom_append hfraction digitRunFrom_nil false
  have hds : ds ≠ [] := by
    rw [← length_pos_iff, hlength, length_pos_iff]
    exact hne
  rw [append_nil] at hrun'
  simp only [Decimal.readReal, toList_ofList, bare_of_isDecimal hfirst hlast,
    sign_of_isDecimal hfirst, digitRun, hrun, hrun', Decimal.exponent?]
  simp [hds]

/-- **Which numerals can be read**: those with a point, and those with few enough digits. -/
theorem exists_numberOf_iff (h : IsNumeral cs) : (∃ n, numberOf (String.ofList cs) = .ok n) ↔
      '.' ∈ cs ∨ cs.length ≤ digitLimit := by
  obtain ⟨whole, hne, hwhole, heq | ⟨fraction, hne', hfraction, heq⟩⟩ := h
  · have hpoint : '.' ∉ whole := fun hmem => absurd (hwhole _ hmem) (by decide)
    rw [heq, or_iff_right hpoint, ← exists_readWhole_iff hne hwhole, numberOf,
      toList_ofList, if_neg (by simpa using hpoint)]
    cases readWhole (ofList whole) <;> simp
  · obtain ⟨f, hf⟩ := exists_readReal hne hwhole hne' hfraction
    rw [heq, numberOf, toList_ofList, if_pos (by simp), hf]
    simp

/-- What is wrong with a numeral without a point: it has too many digits. -/
theorem numberOf_eq_error {text : String} {e : BuildError} (h : IsNumeral text.toList)
    (hpoint : '.' ∉ text.toList) (herror : numberOf text = .error e) :
    e = .numeral (.tooLong text.length) := by
  obtain ⟨whole, hne, hwhole, heq | ⟨fraction, -, -, heq⟩⟩ := h
  · obtain ⟨hfirst, hlast⟩ := head?_of_isDecimal hwhole
    obtain ⟨ds, hlength, hrun⟩ := digitRunFrom_append hwhole digitRunFrom_nil false
    have hds : ds ≠ [] := by
      rw [← length_pos_iff, hlength, length_pos_iff]
      exact hne
    rw [append_nil] at hrun
    rw [numberOf, if_neg (by simpa using hpoint)] at herror
    simp only [readWhole, heq, bare_of_isDecimal hfirst hlast, sign_of_isDecimal hfirst,
      digitRun, hrun] at herror
    rw [← length_toList, heq, ← hlength]
    by_cases hlong : digitLimit < ds.length
    · simpa [hds, hlong] using herror.symm
    · simp [hds, hlong] at herror
  · rw [heq] at hpoint
    simp at hpoint

/-! ### Tokens -/

/-- Whole numbers with too many digits. -/
def Token.isLongWhole (t : Token) : Bool :=
  t.kind = .number && !t.text.toList.contains '.' && digitLimit < t.text.length

/-- What a token was cut off as. -/
theorem Token.IsLexed.exists_lexeme (h : t.IsLexed) :
    ∃ context k cs rest, k.lexeme? cs = some (t.text.toList, rest) ∧
      t.kind = wordKind context k t.text.toList := by
  obtain ⟨context, place, cs, rest, hlex⟩ := h
  obtain ⟨k, -, hk⟩ := exists_of_findSome?_eq_some hlex
  split at hk
  · obtain ⟨⟨l, r⟩, hlexeme, hpair⟩ := Option.map_eq_some_iff.mp hk
    obtain ⟨rfl, rfl⟩ := Prod.mk.inj hpair
    exact ⟨context, k, cs, r, by simpa using hlexeme, by simp⟩
  · simp at hk

/-- Only a numeral is a number. -/
theorem isNumeral_of_isLexed (h : t.IsLexed) (hkind : t.kind = .number) :
    IsNumeral t.text.toList := by
  obtain ⟨context, k, cs, rest, hlexeme, hk⟩ := h.exists_lexeme
  rw [hkind, wordKind] at hk
  split at hk
  · -- a name may be a reserved word, but no reserved word is a number
    split at hk
    · rename_i word hword
      split at hk
      · have hreserved : Terminal.reserved.all (fun p => p.2 ≠ .number) = true := by decide
        obtain ⟨before, after, hsplit, -⟩ := lookup_eq_some_iff.mp hword
        have hmem : (t.text.toList, word) ∈ Terminal.reserved := by simp [hsplit]
        simpa [← hk] using all_eq_true.mp hreserved _ hmem
      · simp_all
    · simp_all
  · subst hk
    exact (isNumeral_of_numeral? hlexeme).1

/-- **Tokens have values**, all but whole numbers with too many digits. -/
theorem Token.exists_value_iff (h : t.IsLexed) :
    (∃ v, t.kind.value (.token t.kind.name t.text) = .ok v) ↔ t.isLongWhole = false := by
  cases hkind : t.kind
  case number =>
    have hnumber := exists_numberOf_iff (isNumeral_of_isLexed h hkind)
    rw [ofList_toList, length_toList] at hnumber
    have hvalue : Terminal.number.value (.token Terminal.number.name t.text)
        = numberOf t.text >>= fun n => .ok (.node .number [n]) := rfl
    have hok : (∃ v, Terminal.number.value (.token Terminal.number.name t.text) = .ok v) ↔
        ∃ n, numberOf t.text = .ok n := by
      simp only [hvalue, bind_eq_ok_iff]
      constructor
      · rintro ⟨-, n, hn, -⟩
        exact ⟨n, hn⟩
      · rintro ⟨n, hn⟩
        exact ⟨_, n, hn, rfl⟩
    rw [hok, hnumber, Token.isLongWhole, hkind]
    by_cases hpoint : '.' ∈ t.text.toList <;> simp [hpoint]
  all_goals
    simp only [Token.isLongWhole, hkind]
    exact iff_of_true ⟨_, rfl⟩ rfl

end Ordo
