import Ordo.Flowchart

namespace Ordo.Flowchart

/-!
# Labels and their escapes

A label is quoted by putting a backslash before its brackets and quotes.  The backslash itself is
not escaped, and still no two texts have the same label.

* `guarded`, `escapeChars_eq_guarded` — the marks may be escaped in one pass or one after another;
* `unescape`, `unescape_escapeChars` — the text of a label;
* `escape_reversible` — labels can be read back.
-/

open List

/-- The characters that are escaped. -/
def marks : List Char := ['[', ']', '"']

theorem escapeChar_of_mem {c : Char} (h : c ∈ marks) : escapeChar c = ['\\', c] := by
  simp only [marks, mem_cons, not_mem_nil, or_false] at h
  rcases h with rfl | rfl | rfl <;> rfl

theorem escapeChar_of_notMem {c : Char} (h : c ∉ marks) : escapeChar c = [c] := by
  simp only [marks, mem_cons, not_mem_nil, or_false, not_or] at h
  simp [escapeChar, h]

theorem ne_backslash_of_mem {c : Char} (h : c ∈ marks) : c ≠ '\\' := by
  rintro rfl
  exact absurd h (by decide)

/-! ### One mark after another -/

/-- A text with a backslash before each occurrence of a character. -/
def guarded (mark : Char) (cs : List Char) : List Char :=
  cs.flatMap fun c => if c = mark then ['\\', c] else [c]

/-- **Escaping the marks one after another** is escaping them all at once: the backslashes that
    one pass puts in are left alone by the next. -/
theorem escapeChars_eq_guarded (cs : List Char) :
    escapeChars cs = guarded '"' (guarded ']' (guarded '[' cs)) := by
  induction cs with
  | nil => rfl
  | cons c cs ih =>
    by_cases hc : c ∈ marks
    · simp only [marks, mem_cons, not_mem_nil, or_false] at hc
      rcases hc with rfl | rfl | rfl <;> simpa [escapeChars, guarded, escapeChar] using ih
    · simp only [marks, mem_cons, not_mem_nil, or_false, not_or] at hc
      simpa [escapeChars, guarded, escapeChar, hc] using ih

/-! ### Reading back -/

/-- A text without the backslash before each bracket and quote. -/
def unescape : List Char → List Char
  | [] => []
  | c :: cs =>
      if c = '\\' ∧ cs.head?.any marks.contains then unescape cs else c :: unescape cs

/-- An escaped text does not start with a bracket or quote. -/
theorem head?_escapeChars (cs : List Char) {mark : Char} (h : mark ∈ marks) :
    (escapeChars cs).head? ≠ some mark := by
  cases cs with
  | nil => simp [escapeChars]
  | cons c cs =>
    rw [escapeChars, flatMap_cons]
    by_cases hc : c ∈ marks
    · rw [escapeChar_of_mem hc]
      simpa using (ne_backslash_of_mem h).symm
    · rw [escapeChar_of_notMem hc]
      rintro ⟨⟩
      exact hc h

/-- **An escaped text is read back**, whatever backslashes are in it. -/
theorem unescape_escapeChars (cs : List Char) : unescape (escapeChars cs) = cs := by
  induction cs with
  | nil => rfl
  | cons c cs ih =>
    have hrest : ¬(escapeChars cs).head?.any marks.contains := by
      rw [Option.any_eq_true]
      rintro ⟨mark, hhead, hmark⟩
      exact head?_escapeChars cs (contains_iff_mem.mp hmark) hhead
    rw [escapeChars, flatMap_cons, ← escapeChars]
    by_cases hc : c ∈ marks
    · rw [escapeChar_of_mem hc]
      show unescape ('\\' :: c :: escapeChars cs) = c :: cs
      rw [unescape, if_pos ⟨rfl, contains_iff_mem.mpr hc⟩, unescape, if_neg fun h => hrest h.2, ih]
    · rw [escapeChar_of_notMem hc]
      show unescape (c :: escapeChars cs) = c :: cs
      rw [unescape, if_neg fun h => hrest h.2, ih]

/-- A bracket or quote in an escaped text has a backslash before it. -/
theorem backslash_before {cs before after : List Char} {mark : Char} (hmark : mark ∈ marks)
    (h : escapeChars cs = before ++ mark :: after) : ∃ front, before = front ++ ['\\'] := by
  induction cs generalizing before with
  | nil => simp [escapeChars] at h
  | cons c cs ih =>
    rw [escapeChars, flatMap_cons, ← escapeChars] at h
    by_cases hc : c ∈ marks
    · rw [escapeChar_of_mem hc] at h
      obtain _ | ⟨a, _ | ⟨b, before⟩⟩ := before
      · exact absurd (List.cons.inj h).1.symm (ne_backslash_of_mem hmark)
      · exact ⟨[], by rw [(List.cons.inj h).1]; rfl⟩
      · obtain ⟨front, rfl⟩ := ih (List.cons.inj (List.cons.inj h).2).2
        exact ⟨a :: b :: front, rfl⟩
    · rw [escapeChar_of_notMem hc] at h
      obtain _ | ⟨a, before⟩ := before
      · exact absurd ((List.cons.inj h).1 ▸ hmark) hc
      · obtain ⟨front, rfl⟩ := ih (List.cons.inj h).2
        exact ⟨a :: front, rfl⟩

/-- **Labels can be read back.**  A label is its text between quotes, with the brackets and quotes
    in it escaped one kind after the other.  In it a backslash stands before each of them, and
    without these backslashes it is the text.  So no two texts have the same label. -/
theorem escape_reversible :
    (∀ s : String, ∃ inner, escape s = "\"" ++ String.ofList inner ++ "\""
      ∧ inner = guarded '"' (guarded ']' (guarded '[' s.toList))
      ∧ (∀ before mark after, inner = before ++ mark :: after → mark ∈ marks →
        ∃ front, before = front ++ ['\\'])
      ∧ unescape inner = s.toList)
    ∧ Function.Injective escape := by
  refine ⟨fun s => ⟨escapeChars s.toList, rfl, escapeChars_eq_guarded _,
    fun _ _ _ h hmark => backslash_before hmark h, unescape_escapeChars _⟩, fun s t h => ?_⟩
  have hchars : escapeChars s.toList = escapeChars t.toList := by
    simpa [escape, String.ext_iff] using h
  have htext := congrArg unescape hchars
  rwa [unescape_escapeChars, unescape_escapeChars, String.toList_inj] at htext

end Ordo.Flowchart
