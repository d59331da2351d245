import Mathlib.Data.List.Nodup
import Ordo.Json.Reader
import Ordo.Json.Writer

namespace Ordo.Json

/-!
# JSON that is written and read again

Data without numbers, tokens and nodes comes back from its text on one line as it was, whether or
not the text is escaped to ASCII.

* `exists_units_writeChar` — the characters of a string, with their escapes;
* `ReadsBack`, `readGroup_intercalate` — things that are read from their texts, and several of them
  in brackets;
* `IsNumberless`, `IsNumberless.readsBack` — the data that comes back;
* `read_write` — a written value is read from its text.
-/

open List

variable (ascii : Bool) (c : Char) (n level start : Nat)

/-! ### Strings -/

theorem hexValue?_hexDigit : hexValue? (Text.hexDigit n) = some (n % 16) := by
  have hall : ∀ d < 16, hexValue? ("0123456789abcdef".toList.getD d '0') = some d := by decide
  exact hall (n % 16) (Nat.mod_lt n (by decide))

/-- Four digits hold a unit of sixteen bits, and are not the end of a text. -/
theorem readString_unitEscape {n : Nat} (hn : n < 0x10000) (acc : List Nat) {rest : List Char}
    (hrest : rest ≠ []) :
    readString start acc (unitEscape n ++ rest) = readString start (n :: acc) rest := by
  obtain ⟨e, rest, rfl⟩ := exists_cons_of_ne_nil hrest
  have hdigits : ((n / 16 / 16 / 16 % 16 * 16 + n / 16 / 16 % 16) * 16 + n / 16 % 16) * 16
      + n % 16 = n := by omega
  rw [unitEscape, cons_append, cons_append, readString.eq_def]
  simp [Text.hex, hex4?, hexValue?_hexDigit, hdigits]

/-- No character is half of a pair. -/
theorem unitChars_toNat_cons (ns : List Nat) : unitChars (c.toNat :: ns) = c :: unitChars ns := by
  have hvalid : c.toNat < 0xD800 ∨ 0xDFFF < c.toNat ∧ c.toNat < 0x110000 := c.valid
  have hunit : unitChar c.toNat = c :=
    (if_pos (show c.toNat.isValidChar from c.valid)).trans (Char.ofNat_toNat c)
  cases ns with
  | nil => rw [unitChars, hunit, unitChars]
  | cons m ns => rw [unitChars, if_neg (by omega), hunit]

/-- The characters that are written as a backslash and a letter or mark. -/
def lettered : List Char := ['"', '\\', '\n', '\r', '\t', '\x08', '\x0c']

theorem writeChar_of_notMem {c : Char} (h : c ∉ lettered) : writeChar ascii c =
      if c.toNat < 32 then unitEscape c.toNat else if ascii && 127 ≤ c.toNat then
        if c.toNat < 0x10000 then unitEscape c.toNat
        else unitEscape (0xD800 + (c.toNat - 0x10000) / 0x400)
          ++ unitEscape (0xDC00 + (c.toNat - 0x10000) % 0x400) else [c] := by
  simp only [lettered, mem_cons, not_mem_nil, or_false, not_or] at h
  obtain ⟨hquote, hslash, hn, hr, ht, hb, hf⟩ := h
  rw [writeChar, if_neg hquote, if_neg hslash, if_neg hn, if_neg hr, if_neg ht, if_neg hb,
    if_neg hf]

/-- A character is read as units that stand for it. -/
theorem exists_units_writeChar : ∃ ms, (∀ acc rest, rest ≠ [] →
      readString start acc (writeChar ascii c ++ rest) = readString start (ms ++ acc) rest)
    ∧ ∀ ns, unitChars (ms.reverse ++ ns) = c :: unitChars ns := by
  by_cases hletter : c ∈ lettered
  · refine ⟨[c.toNat], fun acc rest _ => ?_, unitChars_toNat_cons c⟩
    simp only [lettered, mem_cons, not_mem_nil, or_false] at hletter
    rcases hletter with rfl | rfl | rfl | rfl | rfl | rfl | rfl <;> rfl
  · rw [writeChar_of_notMem ascii hletter]
    split_ifs with hcontrol hwide hplane
    · exact ⟨[c.toNat], fun acc _ => readString_unitEscape start (by omega) acc,
        unitChars_toNat_cons c⟩
    · exact ⟨[c.toNat], fun acc _ => readString_unitEscape start hplane acc,
        unitChars_toNat_cons c⟩
    · -- A character beyond the first plane is a pair of units.
      have hvalid : c.toNat < 0xD800 ∨ 0xDFFF < c.toNat ∧ c.toNat < 0x110000 := c.valid
      generalize hhigh : 0xD800 + (c.toNat - 0x10000) / 0x400 = high
      generalize hlow : 0xDC00 + (c.toNat - 0x10000) % 0x400 = low
      have hboth : 0x10000 + (high - 0xD800) * 0x400 + (low - 0xDC00) = c.toNat := by omega
      refine ⟨[low, high], fun acc rest hrest => ?_, fun ns => ?_⟩
      · rw [append_assoc, readString_unitEscape start (by omega) acc (by simp [unitEscape]),
          readString_unitEscape start (by omega) _ hrest]
        rfl
      · show unitChars (high :: low :: ns) = _
        rw [unitChars, if_pos (by omega), hboth, Char.ofNat_toNat]
    · have hquote : c ≠ '"' := fun h => hletter (h ▸ by decide)
      have hslash : c ≠ '\\' := fun h => hletter (h ▸ by decide)
      refine ⟨[c.toNat], fun acc rest _ => ?_, unitChars_toNat_cons c⟩
      rw [singleton_append, readString.eq_def]
      simp [hquote, hcontrol, hslash]

/-- **A written string is read back**, up to its closing quote. -/
theorem readQuoted_append (s : String) (rest : List Char) :
    readQuoted (s.toList.flatMap (writeChar ascii) ++ '"' :: rest) = .ok (s, rest) := by
  suffices h : ∀ (cs : List Char) (start : Nat) (acc : List Nat),
      ∃ ns, readString start acc (cs.flatMap (writeChar ascii) ++ '"' :: rest)
        = .ok (String.ofList (unitChars (acc.reverse ++ ns)), rest) ∧ unitChars ns = cs by
    obtain ⟨ns, hread, hns⟩ := h s.toList _ []
    rw [readQuoted, hread, reverse_nil, nil_append, hns, String.ofList_toList]
  intro cs start acc
  induction cs generalizing acc with
  | nil => exact ⟨[], by simp [readString.eq_def], rfl⟩
  | cons c cs ih =>
    obtain ⟨ms, hread, hms⟩ := exists_units_writeChar ascii c start
    obtain ⟨ns, hread', rfl⟩ := ih (ms ++ acc)
    refine ⟨ms.reverse ++ ns, ?_, hms ns⟩
    rw [flatMap_cons, append_assoc, hread acc _ (by simp), hread', reverse_append, append_assoc]

theorem toList_writeString (s : String) :
    (writeString ascii s).toList = '"' :: (s.toList.flatMap (writeChar ascii) ++ ['"']) := by
  simp [writeString]

/-! ### Arrays and objects -/

/-- What a value or a name starts with. -/
def itemStarts : List Char := ['n', 't', 'f', '"', '[', '\x7b']

/-- It starts neither with a blank, nor with a bracket that closes, nor with a byte order mark. -/
theorem solid_of_mem_itemStarts {c : Char} (h : c ∈ itemStarts) :
    isSpace c = false ∧ c ≠ ']' ∧ c ≠ '\x7d' ∧ c ≠ '\ufeff' := by
  have hall : itemStarts.all fun c => !isSpace c && c != ']' && c != '\x7d' && c != '\ufeff' := by
    decide
  simpa [and_assoc] using all_eq_true.mp hall c h

/-- A thing is read from the start of a text, with enough fuel for its length. -/
structure ReadsBack {α : Type} (reader : Nat → List Char → Except Trouble (α × Rest)) (a : α)
    (t : List Char) : Prop where
  starts : ∃ c ∈ itemStarts, ∃ t', t = c :: t'
  reads : ∀ n rest, t.length ≤ n → reader n (t ++ rest) = .ok (a, rest)

section

variable {α : Type} {reader : Nat → List Char → Except Trouble (α × Rest)} {f : α → List Char}
  {close : Char} {a : α} {as : List α} {t : List Char} {n : Nat}

theorem ReadsBack.skipSpace (h : ReadsBack reader a t) (rest : List Char) :
    skipSpace (t ++ rest) = t ++ rest := by
  obtain ⟨c, hc, t, rfl⟩ := h.starts
  simp [Json.skipSpace, solid_of_mem_itemStarts hc]

theorem exists_intercalate_cons (sep : List Char) (cs : List Char) (css : List (List Char)) :
    ∃ ds, sep.intercalate (cs :: css) = cs ++ ds := by
  cases css with
  | nil => exact ⟨[], by simp⟩
  | cons ds css => exact ⟨sep ++ sep.intercalate (ds :: css), by simp [intercalate_cons_cons]⟩

attribute [local simp] pure Except.pure bind Except.bind

theorem readMembers_intercalate (h : ∀ x ∈ a :: as, ReadsBack reader x (f x))
    (hclose : close = ']' ∨ close = '\x7d') {fuel : Nat}
    (hn : ([',', ' '].intercalate ((a :: as).map f)).length ≤ n)
    (hfuel : ([',', ' '].intercalate ((a :: as).map f)).length < fuel) (rest : List Char) :
    readMembers (reader n) close fuel ([',', ' '].intercalate ((a :: as).map f) ++ close :: rest)
      = .ok (a :: as, rest) := by
  obtain ⟨fuel, rfl⟩ : ∃ m, fuel = m + 1 := ⟨fuel - 1, by omega⟩
  obtain ⟨ha, has⟩ := forall_mem_cons.mp h
  induction as generalizing a fuel with
  | nil =>
    rw [map_singleton, intercalate_singleton] at hn ⊢
    rw [readMembers, ha.reads n _ hn]
    rcases hclose with rfl | rfl <;> rfl
  | cons b as ih =>
    obtain ⟨hb, has'⟩ := forall_mem_cons.mp has
    rw [map_cons, map_cons, intercalate_cons_cons, ← map_cons] at hn hfuel ⊢
    simp only [length_append, length_cons, length_nil] at hn hfuel
    obtain ⟨fuel, rfl⟩ : ∃ m, fuel = m + 1 := ⟨fuel - 1, by omega⟩
    have hrec := ih has (by omega) fuel (by omega) hb has'
    have hskip (cs : List Char) : skipSpace (',' :: cs) = ',' :: cs := rfl
    have hskip' : skipSpace (' ' :: ([',', ' '].intercalate ((b :: as).map f) ++ close :: rest))
        = [',', ' '].intercalate ((b :: as).map f) ++ close :: rest := by
      obtain ⟨ds, hds⟩ := exists_intercalate_cons [',', ' '] (f b) (as.map f)
      rw [map_cons, hds, append_assoc]
      exact hb.skipSpace _
    rw [append_assoc, append_assoc, readMembers, ha.reads n _ (by omega)]
    simp [-map_cons, hskip, hskip', hrec]

theorem readGroup_intercalate (f : α → List Char) (h : ∀ x ∈ as, ReadsBack reader x (f x))
    (hclose : close = ']' ∨ close = '\x7d')
    (hn : ([',', ' '].intercalate (as.map f) ++ [close]).length ≤ n) (rest : List Char) :
    readGroup (reader n) close ([',', ' '].intercalate (as.map f) ++ [close] ++ rest)
      = .ok (as, rest) := by
  rw [append_assoc, singleton_append]
  rw [length_append] at hn
  cases as with
  | nil => rcases hclose with rfl | rfl <;> rfl
  | cons a as =>
    obtain ⟨ds, hds⟩ := exists_intercalate_cons [',', ' '] (f a) (as.map f)
    have hstart : skipSpace ([',', ' '].intercalate ((a :: as).map f) ++ close :: rest)
        = [',', ' '].intercalate ((a :: as).map f) ++ close :: rest := by
      rw [map_cons, hds, append_assoc]
      exact (h a mem_cons_self).skipSpace _
    have hhead : ([',', ' '].intercalate ((a :: as).map f) ++ close :: rest).head? ≠ some close := by
      obtain ⟨c, hc, t, ht⟩ := (h a mem_cons_self).starts
      have hsolid := solid_of_mem_itemStarts hc
      rw [map_cons, hds, ht]
      rcases hclose with rfl | rfl <;> simp [hsolid]
    rw [readGroup, hstart, if_neg hhead]
    exact readMembers_intercalate h hclose (by omega) (by simp only [length_append]; omega) rest

/-- An entry is read back if its value is. -/
theorem ReadsBack.entry {v : Value} (h : ReadsBack readValue v t) (key : String) :
    ReadsBack (fun n => readEntry (readValue n)) (key, v)
      ((writeString ascii key).toList ++ ':' :: ' ' :: t) where
  starts := ⟨'"', by decide, _, by rw [toList_writeString]; rfl⟩
  reads n rest hn := by
    rw [toList_writeString] at hn ⊢
    simp only [length_append, length_cons] at hn
    have hskip (cs : List Char) : Json.skipSpace (':' :: cs) = ':' :: cs := rfl
    have hskip' : Json.skipSpace (' ' :: (t ++ rest)) = t ++ rest := h.skipSpace rest
    simp [readEntry, readQuoted_append, hskip, hskip', h.reads n rest (by omega)]

end

/-- The characters of a value on one line. -/
abbrev chars (ascii : Bool) (level : Nat) (v : Value) : List Char :=
  (writeAt ⟨ascii, none⟩ level v).toList

/-- The characters of an entry. -/
abbrev entryChars (ascii : Bool) (level : Nat) (e : String × Value) : List Char :=
  (writeString ascii e.1).toList ++ ':' :: ' ' :: chars ascii level e.2

theorem chars_list (vs : List Value) : chars ascii level (.list vs)
      = '[' :: ([',', ' '].intercalate (vs.map (chars ascii (level + 1))) ++ [']']) := by
  have hall : ∀ vs : List Value, writeAll ⟨ascii, none⟩ (level + 1) vs
      = vs.map (writeAt ⟨ascii, none⟩ (level + 1)) := by
    intro vs
    induction vs with
    | nil => rfl
    | cons v vs ih => rw [writeAll, ih, map_cons]
  cases vs with
  | nil => simp [chars, writeAt, writeItems]
  | cons v vs =>
    simp [chars, writeAt, writeItems, hall, lineBreak, separator, Function.comp_def]

theorem chars_dict (es : List (String × Value)) :
    chars ascii level (.dict es)
      = '\x7b' :: ([',', ' '].intercalate (es.map (entryChars ascii (level + 1))) ++ ['\x7d']) := by
  have hall : ∀ es : List (String × Value), (writeEntries ⟨ascii, none⟩ (level + 1) es).map
      String.toList = es.map (entryChars ascii (level + 1)) := by
    intro es
    induction es with
    | nil => rfl
    | cons e es ih => simp [writeEntries, ih]
  cases es with
  | nil => simp [chars, writeAt]
  | cons e es =>
    simp [chars, writeAt, hall, lineBreak, separator]

theorem notMem_of_nodup_append_cons {acc es : List (String × Value)} {e : String × Value}
    (h : ((acc ++ e :: es).map Prod.fst).Nodup) : e.1 ∉ acc.map Prod.fst := by
  rw [map_append, map_cons] at h
  exact fun hmem => disjoint_of_nodup_append h hmem mem_cons_self

/-- Entries of different names are all kept. -/
theorem foldl_putEntry (acc : List (String × Value)) {es : List (String × Value)} (h : ((acc ++ es).map Prod.fst).Nodup) :
    es.foldl putEntry acc = acc ++ es := by
  have hput : ∀ {acc : List (String × Value)} {e : String × Value}, e.1 ∉ acc.map Prod.fst →
      putEntry acc e = acc ++ [e] := by
    intro acc e he
    induction acc with
    | nil => rfl
    | cons a acc ih =>
      rw [map_cons, mem_cons, not_or] at he
      rw [putEntry, if_neg (Ne.symm he.1), ih he.2, cons_append]
  induction es generalizing acc with
  | nil => simp
  | cons e es ih =>
    rw [foldl_cons, hput (notMem_of_nodup_append_cons h), ih _ (by rwa [← append_cons]),
      ← append_cons]

/-! ### Values -/

/-- Data without numbers, tokens, trees and nodes, whose dictionaries have each key once. -/
inductive IsNumberless : Value → Prop
  | none : IsNumberless .none
  | bool (b : Bool) : IsNumberless (.bool b)
  | str (s : String) : IsNumberless (.str s)
  | list {vs : List Value} (h : ∀ v ∈ vs, IsNumberless v) : IsNumberless (.list vs)
  | dict {es : List (String × Value)} (hkeys : (es.map Prod.fst).Nodup)
      (h : ∀ e ∈ es, IsNumberless e.2) : IsNumberless (.dict es)

variable {v : Value}

/-- Fuel is spent on the first character of a value. -/
theorem readsBack_cons {c : Char} {t : List Char} (hc : c ∈ itemStarts)
    (h : ∀ n rest, t.length ≤ n → readValue (n + 1) (c :: (t ++ rest)) = .ok (v, rest)) :
    ReadsBack readValue v (c :: t) := by
  refine ⟨⟨c, hc, t, rfl⟩, fun n rest hn => ?_⟩
  obtain ⟨n, rfl⟩ : ∃ m, n = m + 1 := ⟨n - 1, by simp only [length_cons] at hn; omega⟩
  exact h n rest (Nat.le_of_succ_le_succ hn)

theorem IsNumberless.readsBack (h : IsNumberless v) :
    ReadsBack readValue v (chars ascii level v) := by
  induction h generalizing level with
  | none =>
    have hchars : chars ascii level .none = ['n', 'u', 'l', 'l'] := by simp [chars, writeAt]
    exact hchars ▸ readsBack_cons (by decide) fun n rest _ => rfl
  | bool b =>
    cases b with
    | false =>
      have hchars : chars ascii level (.bool false) = ['f', 'a', 'l', 's', 'e'] := by
        simp [chars, writeAt]
      exact hchars ▸ readsBack_cons (by decide) fun n rest _ => rfl
    | true =>
      have hchars : chars ascii level (.bool true) = ['t', 'r', 'u', 'e'] := by
        simp [chars, writeAt]
      exact hchars ▸ readsBack_cons (by decide) fun n rest _ => rfl
  | str s =>
    rw [chars, writeAt, toList_writeString]
    refine readsBack_cons (by decide) fun n rest _ => ?_
    rw [append_assoc, readValue, if_pos rfl]
    simp [readQuoted_append]
  | list _ ih =>
    rw [chars_list]
    refine readsBack_cons (by decide) fun n rest hn => ?_
    rw [readValue, if_neg (by decide), if_neg (by decide), if_pos rfl,
      readGroup_intercalate _ (fun v hv => ih v hv (level + 1)) (.inl rfl) hn]
    rfl
  | dict hkeys _ ih =>
    rw [chars_dict]
    refine readsBack_cons (by decide) fun n rest hn => ?_
    rw [readValue, if_neg (by decide), if_pos rfl, readGroup_intercalate _
      (fun e he => (ih e he (level + 1)).entry ascii e.1) (.inr rfl) hn]
    simp [foldl_putEntry [] hkeys]

/-- **Written data is read back**, from a line of JSON with or without escapes. -/
theorem read_write (h : IsNumberless v) (ascii : Bool) : read (write ⟨ascii, none⟩ v) = .ok v := by
  have hback := h.readsBack ascii 0
  have hread := hback.reads _ [] (Nat.le_refl _)
  have hskip := hback.skipSpace []
  rw [append_nil] at hread hskip
  show readChars (chars ascii 0 v) = .ok v
  rw [readChars, hskip, hread]
  · rfl
  · intro rest hmark
    obtain ⟨c, hc, t, ht⟩ := hback.starts
    cases ht.symm.trans hmark
    exact (solid_of_mem_itemStarts hc).2.2.2 rfl

end Ordo.Json
