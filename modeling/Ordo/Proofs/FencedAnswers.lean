import Ordo.Agent.Extractor
import Ordo.Proofs.Sessions

namespace Ordo

/-!
# Answers in a block of code

The model answers a specialist with JSON in a block of code, which may be tagged and may be closed.

* `Text.splitFirst?_append` — a search goes on after what does not hold the first character;
* `FencedAnswer` — such answers, with what is taken for their block;
* `FencedAnswer.fenced_chars` — how the block is found;
* `Specialist.extracts_fenced` — what a specialist reads from such an answer.
-/

open List

namespace Text

variable {c : Char} {pattern before : List Char}

theorem splitFirst?_append (hc : c ∉ before) (cs : List Char) :
    splitFirst? (c :: pattern) (before ++ cs)
      = (splitFirst? (c :: pattern) cs).map fun (b, a) => (before ++ b, a) := by
  induction before with
  | nil => simp
  | cons b before ih =>
    rw [mem_cons, not_or] at hc
    simp [splitFirst?, isPrefixOf, hc.1, ih hc.2, Function.comp_def]

theorem splitFirst?_self (cs : List Char) :
    splitFirst? (c :: pattern) (c :: pattern ++ cs) = some ([], cs) := by
  simp [splitFirst?]

theorem splitFirst?_of_notMem (hc : c ∉ before) : splitFirst? (c :: pattern) before = none := by
  simpa [splitFirst?] using @splitFirst?_append c pattern before hc []

end Text

open Text

namespace Answer

variable {cs : List Char}

theorem upToFence_closed (h : '`' ∉ cs) (q : List Char) : upToFence (cs ++ (fence ++ q)) = cs := by
  rw [upToFence, fence, splitFirst?_append h, splitFirst?_self]
  simp

theorem upToFence_open (h : '`' ∉ cs) : upToFence cs = cs.dropLast := by
  rw [upToFence, fence, splitFirst?_of_notMem h]

/-- A fence that is not tagged is passed over. -/
theorem splitFirst?_jsonFence (htag : ¬['j', 's', 'o', 'n'] <+: cs)
    (hcs : ∀ c ∈ cs.head?, c ≠ '`') : splitFirst? jsonFence (fence ++ cs)
      = (splitFirst? jsonFence cs).map fun (b, a) => (fence ++ b, a) := by
  cases cs with
  | nil => rfl
  | cons c cs =>
    have hc := (hcs c rfl).symm
    rw [cons_prefix_cons] at htag
    simp [jsonFence, fence, splitFirst?, isPrefixOf, Function.comp_def, hc, htag]

end Answer

open Answer

/-- An answer with JSON in a block of code. -/
structure FencedAnswer where
  before : List Char
  tagged : Bool
  json : List Char
  /-- What stands after the closing fence, if there is one. -/
  after : Option (List Char)
  backtick_notMem : '`' ∉ before ++ (json ++ after.getD [])

namespace FencedAnswer

def chars (a : FencedAnswer) : List Char :=
  a.before ++ ((if a.tagged then jsonFence else fence)
    ++ '\n' :: (a.json ++ a.after.elim [] (fence ++ ·)))

/-- What is taken for the block: without the last character if the block is not closed, and of
    the text after it if the closing fence looks like a tagged one. -/
def taken (a : FencedAnswer) : List Char :=
  match a.after with
  | none => ('\n' :: a.json).dropLast
  | some q =>
      if a.tagged = false ∧ ['j', 's', 'o', 'n'] <+: q then (q.drop 4).dropLast else '\n' :: a.json

variable (a : FencedAnswer)

theorem fenced_chars : fenced a.chars = trim a.taken := by
  obtain ⟨before, tagged, json, after, hbacktick⟩ := a
  simp only [mem_append, not_or] at hbacktick
  obtain ⟨hbefore, hjson, hafter⟩ := hbacktick
  have hblock : '`' ∉ '\n' :: json := by simpa using hjson
  have htag : jsonFence = '`' :: ['`', '`', 'j', 's', 'o', 'n'] := rfl
  have hupTo : upToFence ('\n' :: (json ++ after.elim [] (fence ++ ·)))
      = if after = none then ('\n' :: json).dropLast else '\n' :: json := by
    cases after with
    | none => simpa using upToFence_open hblock
    | some q => exact upToFence_closed hblock q
  cases tagged with
  | true =>
    simp only [fenced, chars, if_true]
    rw [htag, splitFirst?_append hbefore, splitFirst?_self]
    cases after <;> simp_all [taken]
  | false =>
    have hsearch : splitFirst? jsonFence
        (before ++ (fence ++ '\n' :: (json ++ after.elim [] (fence ++ ·))))
          = (splitFirst? jsonFence (after.elim [] (fence ++ ·))).map fun (b, a) =>
            (before ++ (fence ++ '\n' :: (json ++ b)), a) := by
      rw [htag, splitFirst?_append hbefore, ← htag, splitFirst?_jsonFence (by simp) (by simp),
        ← cons_append, htag, splitFirst?_append hblock]
      simp [Function.comp_def]
    have hfence : splitFirst? fence
        (before ++ (fence ++ '\n' :: (json ++ after.elim [] (fence ++ ·))))
          = some (before, '\n' :: (json ++ after.elim [] (fence ++ ·))) := by
      rw [fence, splitFirst?_append hbefore, splitFirst?_self]
      simp
    simp only [fenced, chars, Bool.false_eq_true, if_false, hsearch, hfence]
    cases after with
    | none => simp_all [taken, splitFirst?]
    | some q =>
      by_cases hjson : ['j', 's', 'o', 'n'] <+: q
      · obtain ⟨rest, rfl⟩ := hjson
        have hopen : splitFirst? jsonFence (fence ++ (['j', 's', 'o', 'n'] ++ rest))
            = some ([], rest) := splitFirst?_self rest
        have hrest : '`' ∉ rest := fun hmem => hafter (by simp [hmem])
        simp_all [taken, upToFence_open]
      · have hskip := splitFirst?_jsonFence hjson fun c hc hcs => hafter (hcs ▸ mem_of_mem_head? hc)
        have hnone : splitFirst? jsonFence q = none := splitFirst?_of_notMem hafter
        simp_all [taken]

end FencedAnswer

/-! ### What is read -/

namespace Specialist

/-- A specialist comes to data. -/
def Extracts (s : Specialist) (subject : Value) (name : String) (services : Services) (log : Log)
    (data : Value) : Prop :=
  ∃ f, ((s.examine subject name).outcome services log).1 = .ok f ∧ f.result = .ok data

variable (s : Specialist) (subject : Value) (name : String) (services : Services) (log : Log)

theorem extracts_finished_iff {text : String} {turns : Nat} {w : Value}
    (h : ((s.agent.converse (.str (s.prompt subject name)) turnLimit).outcome services log).1
      = .ok (.finished text turns)) :
    s.Extracts subject name services log w ↔ Json.readChars (fenced text.toList) = .ok w := by
  rw [Extracts, examine, Session.outcome_bind_of_ok h, Session.outcome_ofExcept, Finding.ofEnding]
  simp only [Ending.result, Ending.turns, readFenced, Json.read, String.toList_ofList]
  split <;> simp_all [Finding.result]

/-- **What is read from JSON in a block of code.**  It is the JSON if the block is closed, unless
    the block is not tagged and the text after it makes the closing fence look tagged: then that
    text is read, without its last character.  So is a block that is not closed. -/
theorem extracts_fenced (a : FencedAnswer) {turns : Nat} {v : Value}
    (hv : Json.readChars (trim a.json) = .ok v)
    (h : ((s.agent.converse (.str (s.prompt subject name)) turnLimit).outcome services log).1
      = .ok (.finished (String.ofList a.chars) turns)) :
    (∀ q, a.after = some q → a.tagged = true ∨ ¬['j', 's', 'o', 'n'] <+: q →
      s.Extracts subject name services log v)
    ∧ (∀ rest, a.after = some (['j', 's', 'o', 'n'] ++ rest) → a.tagged = false → ∀ w,
      s.Extracts subject name services log w ↔ Json.readChars (trim rest.dropLast) = .ok w)
    ∧ (a.after = none → ∀ w,
      s.Extracts subject name services log w ↔ Json.readChars (trim a.json.dropLast) = .ok w) := by
  have hread (w : Value) := extracts_finished_iff s subject name services log (w := w) h
  simp only [String.toList_ofList, a.fenced_chars, FencedAnswer.taken] at hread
  refine ⟨fun q hq htag => ?_, fun rest hrest htag w => ?_, fun hnone w => ?_⟩
  · have hkept : ¬(a.tagged = false ∧ ['j', 's', 'o', 'n'] <+: q) := by
      rintro ⟨hfalse, hstart⟩
      exact htag.elim (by simp [hfalse]) fun hnot => hnot hstart
    rw [hread, hq]
    simp only [if_neg hkept]
    exact hv
  · rw [hread, hrest]
    simp [htag]
  · have hne : a.json ≠ [] := by
      intro hnil
      rw [hnil] at hv
      cases hv
    rw [hread, hnone, dropLast_cons_of_ne_nil hne]
    rfl

/-- A model that answers with a text. -/
def answering (text : String) : Services :=
  ⟨some fun _ => .ok ⟨.endTurn, [.text (.str text)]⟩, none⟩

/-- An empty object is read from a closed block, and nothing from one that is not closed. -/
theorem extracts_fenced_empty :
    recursive.Extracts (.dict []) "f" (answering "```json\n\x7b\x7d```") Log.empty (.dict []) ∧
      ∀ w, ¬recursive.Extracts (.dict []) "f" (answering "```json\n\x7b\x7d") Log.empty w := by
  constructor
  · exact (extracts_fenced recursive (.dict []) "f" _ Log.empty
      ⟨[], true, ['\x7b', '\x7d'], some [], by decide⟩ rfl rfl).1 [] rfl (.inl rfl)
  · intro w
    rw [(extracts_fenced recursive (.dict []) "f" _ Log.empty
      ⟨[], true, ['\x7b', '\x7d'], none, by decide⟩ rfl rfl).2.2 rfl]
    nofun

end Specialist

end Ordo
