import Ordo.Agent.Conversation
import Ordo.Proofs.Results
import Ordo.Proofs.Sessions

namespace Ordo

/-!
# The turns of a conversation

Every request of a conversation with tools carries all that was said before it: the prompt, and
for each turn the reply and the results of the tools that it asked for.

* `Services.reply`, `Reply.toolIds`, `Reply.IsProper` — replies, and what they ask for;
* `ids_of_toolResults`, `exists_toolResults` — the results of the tools of a reply;
* `Agent.History` — what is said in so many turns;
* `IsExchange`, `Agent.History.isExchange` — its form: whose turn it is and what is answered;
* `Agent.takeTurns_step`, `Agent.takeTurns_requests` — one turn, and all turns;
* `Agent.converse_isExchange` — conversations, for limits that are not negative.
-/

open List

/-! ### Replies -/

/-- The n-th reply of the model; without a key there is none. -/
def Services.reply (services : Services) (n : Nat) : Except String Reply :=
  match services.model with
  | some model => model n
  | none => .error ""

/-- A request, seen by the outside. -/
def Log.ask (log : Log) (r : Request) : Log := { log with requests := log.requests ++ [r] }

theorem Session.outcome_reply (services : Services) (log : Log) (r : Request) :
    (Session.reply r).outcome services log
      = ((services.reply log.requests.length).mapError .service, log.ask r) := by
  obtain ⟨_ | model, cache⟩ := services <;> rfl

/-- The identifier of a request for a tool. -/
def Block.toolId? : Block → Option Value
  | .toolUse id _ _ => some id
  | _ => none

/-- The identifiers of the tools that a reply asks for, in its order. -/
def Reply.toolIds (reply : Reply) : List Value := reply.content.filterMap Block.toolId?

/-- A reply that asks only for tools that the agent knows, and whose texts are texts. -/
structure Reply.IsProper (agent : Agent) (reply : Reply) : Prop where
  tools : ∀ id name input, .toolUse id name input ∈ reply.content →
    ∃ t, name.text?.bind agent.tool? = some t
  texts : ∀ content, .text content ∈ reply.content → ∃ s, content.text? = some s

variable {agent : Agent} {content : List Block}

/-- There is one result for each tool that is asked for, in the same order. -/
theorem ids_of_toolResults {results : List ToolResult}
    (h : toolResults agent content = .ok results) :
    results.map ToolResult.id = content.filterMap Block.toolId? := by
  induction content generalizing results with
  | nil =>
    obtain rfl : [] = results := Except.ok.inj h
    rfl
  | cons block content ih =>
    cases block with
    | text s => exact ih h
    | other data => exact ih h
    | toolUse id name input =>
      obtain ⟨answer, -, rest, hrest, rfl⟩ := bind₂_pure_eq_ok_iff.mp h
      exact congrArg (id :: ·) (ih hrest)

/-- Known tools have results. -/
theorem exists_toolResults (h : ∀ id name input, .toolUse id name input ∈ content →
      ∃ t, name.text?.bind agent.tool? = some t) :
    ∃ results, toolResults agent content = .ok results := by
  induction content with
  | nil => exact ⟨[], rfl⟩
  | cons block content ih =>
    obtain ⟨rest, hrest⟩ := ih fun id name input hmem =>
      h id name input (mem_cons_of_mem _ hmem)
    cases block with
    | text s => exact ⟨rest, hrest⟩
    | other data => exact ⟨rest, hrest⟩
    | toolUse id name input =>
      obtain ⟨t, ht⟩ := h id name input mem_cons_self
      have huse : agent.useTool name input = .ok (t.answer input) := by
        rw [Agent.useTool, ht]
      refine ⟨_, bind_eq_ok_iff.mpr ⟨_, huse, bind_eq_ok_iff.mpr ⟨rest, hrest, rfl⟩⟩⟩

/-- Texts make a text. -/
theorem exists_replyText (h : ∀ c, .text c ∈ content → ∃ s, c.text? = some s) :
    ∃ s, replyText content = .ok s := by
  induction content with
  | nil => exact ⟨"", rfl⟩
  | cons block content ih =>
    obtain ⟨rest, hrest⟩ := ih fun c hmem => h c (mem_cons_of_mem _ hmem)
    cases block with
    | toolUse id name input => exact ⟨rest, hrest⟩
    | other data => exact ⟨rest, hrest⟩
    | text c =>
      obtain ⟨s, hs⟩ := h c mem_cons_self
      refine ⟨s ++ rest, ?_⟩
      rw [replyText, hs]
      exact bind_eq_ok_iff.mpr ⟨rest, hrest, rfl⟩

/-! ### What is said -/

/-- The messages after so many turns in which the model asks for tools. -/
inductive Agent.History (agent : Agent) (prompt : Value) (replies : Nat → Except String Reply) :
    Nat → List Message → Prop
  | start : History agent prompt replies 0 [.prompt prompt]
  | turn {k : Nat} {messages : List Message} {reply : Reply} {results : List ToolResult}
      (before : History agent prompt replies k messages) (hreply : replies k = .ok reply)
      (hresults : toolResults agent reply.content = .ok results) :
      History agent prompt replies (k + 1)
        (messages ++ [.assistant reply.content, .results results])

/-- The form of what is said before the next request, after so many turns. -/
structure IsExchange (prompt : Value) (replies : Nat → Except String Reply) (turns : Nat)
    (messages : List Message) : Prop where
  length : messages.length = 2 * turns + 1
  first : messages[0]? = some (.prompt prompt)
  /-- The user and the assistant take turns. -/
  role : ∀ i m, messages[i]? = some m → m.role = if i % 2 = 0 then .user else .assistant
  /-- A reply is passed on as it is, and after it one result for each tool it asked for. -/
  answered : ∀ i < turns, ∃ reply results, replies i = .ok reply ∧
    messages[2 * i + 1]? = some (.assistant reply.content) ∧
    messages[2 * i + 2]? = some (.results results) ∧ results.map ToolResult.id = reply.toolIds

theorem Agent.History.isExchange {prompt : Value}
    {replies : Nat → Except String Reply} {turns : Nat} {messages : List Message}
    (h : agent.History prompt replies turns messages) :
    IsExchange prompt replies turns messages := by
  induction h with
  | start =>
    refine ⟨rfl, rfl, ?_, fun i hi => absurd hi (Nat.not_lt_zero i)⟩
    intro i m hm
    cases i with
    | zero =>
      cases hm
      rfl
    | succ i => cases hm
  | @turn k messages reply results before hreply hresults ih =>
    obtain ⟨hlength, hfirst, hrole, hanswered⟩ := ih
    -- the messages before the turn keep their places, and the two new ones come after them
    have hold : ∀ i < 2 * k + 1,
        (messages ++ [.assistant reply.content, .results results])[i]? = messages[i]? :=
      fun i hi => getElem?_append_left (hlength ▸ hi)
    have hreplied : (messages ++ [.assistant reply.content, .results results])[2 * k + 1]?
        = some (.assistant reply.content) := by
      rw [getElem?_append_right (by omega), hlength, Nat.sub_self]
      rfl
    have hresulted : (messages ++ [.assistant reply.content, .results results])[2 * k + 2]?
        = some (.results results) := by
      rw [getElem?_append_right (by omega), hlength, Nat.add_sub_add_left]
      rfl
    have htotal : (messages ++ [Message.assistant reply.content, .results results]).length
        = 2 * (k + 1) + 1 := by
      rw [length_append, hlength]
      rfl
    refine ⟨htotal, by rw [hold 0 (by omega), hfirst], ?_, ?_⟩
    · intro i m hm
      have hi : i < 2 * (k + 1) + 1 := htotal ▸ (List.getElem?_eq_some_iff.mp hm).1
      rcases (by omega : i < 2 * k + 1 ∨ i = 2 * k + 1 ∨ i = 2 * k + 2) with hi | rfl | rfl
      · exact hrole i m (hold i hi ▸ hm)
      · cases hreplied.symm.trans hm
        rw [if_neg (by omega)]
        rfl
      · cases hresulted.symm.trans hm
        rw [if_pos (by omega)]
        rfl
    · intro i hi
      rcases Nat.lt_succ_iff_lt_or_eq.mp hi with hi | rfl
      · rw [hold _ (by omega), hold _ (by omega)]
        exact hanswered i hi
      · exact ⟨reply, results, hreply, hreplied, hresulted, ids_of_toolResults hresults⟩

/-! ### Turns -/

namespace Agent

/-- **One turn** either ends the conversation, or the model asks for tools, and the next turn
    follows with their results. -/
theorem takeTurns_step (agent : Agent) (limit : Limit) (left made : Nat)
    (messages : List Message) (services : Services) (log : Log) :
    let run := (agent.takeTurns limit (left + 1) made messages).outcome services log
    (run.2 = log.ask (agent.request messages) ∧
        (∀ ending, run.1 = .ok ending → ending.turns = .int (made + 1)) ∧
        ∀ reply, services.reply log.requests.length = .ok reply → reply.IsProper agent →
          ∃ ending, run.1 = .ok ending) ∨
      ∃ reply results, services.reply log.requests.length = .ok reply ∧
        toolResults agent reply.content = .ok results ∧
        run = (agent.takeTurns limit left (made + 1)
          (messages ++ [.assistant reply.content, .results results])).outcome services
            (log.ask (agent.request messages)) := by
  intro run
  have hasked := Session.outcome_reply services log (agent.request messages)
  cases hreply : services.reply log.requests.length with
  | error e =>
    rw [hreply] at hasked
    have hrun : run = (.error (.service e), log.ask (agent.request messages)) := by
      refine (Session.outcome_bind_of_error (e := .service e) (by rw [hasked]; rfl)).trans ?_
      rw [hasked]
    exact .inl ⟨by rw [hrun], by rw [hrun]; rintro _ ⟨⟩, by rintro _ ⟨⟩⟩
  | ok reply =>
    rw [hreply] at hasked
    have hrun : run = _ := Session.outcome_bind_of_ok (a := reply) (by rw [hasked]; rfl)
    rw [hasked] at hrun
    cases hstop : reply.stop with
    | endTurn =>
      rw [hstop] at hrun
      cases htext : replyText reply.content with
      | error e =>
        rw [htext] at hrun
        refine .inl ⟨by rw [hrun]; rfl, by rw [hrun]; rintro _ ⟨⟩, ?_⟩
        rintro _ ⟨⟩ hproper
        obtain ⟨s, hs⟩ := exists_replyText hproper.texts
        cases htext.symm.trans hs
      | ok s =>
        rw [htext] at hrun
        refine .inl ⟨by rw [hrun]; rfl, ?_, fun _ _ _ => ⟨_, by rw [hrun]; rfl⟩⟩
        rw [hrun]
        rintro _ ⟨⟩
        rfl
    | toolUse =>
      rw [hstop] at hrun
      cases hresults : toolResults agent reply.content with
      | error f =>
        rw [hresults] at hrun
        refine .inl ⟨by rw [hrun]; rfl, by rw [hrun]; rintro _ ⟨⟩, ?_⟩
        rintro _ ⟨⟩ hproper
        obtain ⟨results, hresults'⟩ := exists_toolResults hproper.tools
        cases hresults.symm.trans hresults'
      | ok results =>
        rw [hresults] at hrun
        exact .inr ⟨reply, results, rfl, hresults, hrun⟩
    | other reason =>
      rw [hstop] at hrun
      refine .inl ⟨by rw [hrun]; rfl, ?_, fun _ _ _ => ⟨_, by rw [hrun]; rfl⟩⟩
      rw [hrun]
      rintro _ ⟨⟩
      rfl

variable {agent : Agent} {services : Services}

/-- **All turns.**  If `made` turns have led to `messages`, then at most `left` more requests are
    made, each with what has been said until then; at the end so many turns are reported. -/
theorem takeTurns_requests {prompt : Value} {start : Nat}
    (limit : Limit) (left : Nat) {made : Nat} {messages : List Message} {log : Log}
    (hsaid : agent.History prompt (fun k => services.reply (start + k)) made messages)
    (hlog : log.requests.length = start + made) :
    let run := (agent.takeTurns limit left made messages).outcome services log
    ∃ requests : List Request, run.2.requests = log.requests ++ requests ∧
      requests.length ≤ left ∧
      (∀ i request, requests[i]? = some request →
        agent.History prompt (fun k => services.reply (start + k)) (made + i) request.messages) ∧
      (∀ ending, run.1 = .ok ending → ending.turns = .int ↑(made + requests.length) ∨
        ending = .exhausted limit ∧ requests.length = left) ∧
      ((∀ k < requests.length, ∃ reply, services.reply (start + made + k) = .ok reply ∧
        reply.IsProper agent) → ∃ ending, run.1 = .ok ending) := by
  induction left generalizing made messages log with
  | zero =>
    refine ⟨[], (append_nil _).symm, Nat.le_refl 0, by simp, ?_, fun _ => ⟨_, rfl⟩⟩
    rintro _ ⟨⟩
    exact .inr ⟨rfl, rfl⟩
  | succ left ih =>
    intro run
    rcases agent.takeTurns_step limit left made messages services log with
      ⟨hasked, hturns, hends⟩ | ⟨reply, results, hreply, hresults, hnext⟩
    · refine ⟨[agent.request messages], congrArg Log.requests hasked, ?_, ?_, ?_, ?_⟩
      · exact Nat.succ_le_succ (Nat.zero_le left)
      · intro i request hi
        cases i with
        | zero =>
          cases hi
          exact hsaid
        | succ i => cases hi
      · exact fun ending hending => .inl (hturns ending hending)
      · intro hproper
        obtain ⟨reply, hreply, hreplyProper⟩ := hproper 0 Nat.one_pos
        exact hends reply (hlog ▸ hreply) hreplyProper
    · have hlog' : (log.ask (agent.request messages)).requests.length = start + (made + 1) := by
        rw [Log.ask, length_append, hlog]
        rfl
      rw [hlog] at hreply
      obtain ⟨requests, hrequests, hleft, hsaid', hturns, hends⟩ :=
        ih (hsaid.turn hreply hresults) hlog'
      rw [show run = _ from hnext]
      refine ⟨agent.request messages :: requests, ?_, Nat.succ_le_succ hleft, ?_, ?_, ?_⟩
      · rw [hrequests, Log.ask, append_assoc]
        rfl
      · intro i request hi
        cases i with
        | zero =>
          cases hi
          exact hsaid
        | succ i =>
          rw [Nat.add_comm i 1, ← Nat.add_assoc]
          exact hsaid' i request hi
      · intro ending hending
        rw [length_cons, Nat.add_comm requests.length 1, ← Nat.add_assoc]
        exact (hturns ending hending).imp_right fun h => ⟨h.1, by rw [h.2, Nat.add_comm]⟩
      · intro hproper
        refine hends fun k hk => ?_
        obtain ⟨reply, hreply, hreplyProper⟩ := hproper (k + 1) (Nat.succ_lt_succ hk)
        exact ⟨reply, by rw [← hreply]; congr 1; omega, hreplyProper⟩

/-- **Conversations.**  Whatever is asked and replied, the user and the assistant take turns in
    every request of a conversation: the first one carries the prompt, and each further one also
    the reply to the one before and a result for each tool which that reply asked for.  No more
    requests are made than the limit allows, and unless it is negative, the number of turns that
    is reported is the number of requests.  A conversation in which only known tools are asked
    for comes to an end. -/
theorem converse_isExchange (agent : Agent) (prompt : Value) (limit : Limit)
    (services : Services) (log : Log) :
    let run := (agent.converse prompt limit).outcome services log
    let replies := fun k => services.reply (log.requests.length + k)
    ∃ requests : List Request, run.2.requests = log.requests ++ requests ∧
      (∀ i request, requests[i]? = some request →
        IsExchange prompt replies i request.messages) ∧
      requests.length ≤ max limit.toValue.asInt 0 ∧
      (0 ≤ limit.toValue.asInt →
        ∀ ending, run.1 = .ok ending → ending.turns.asInt = requests.length) ∧
      ((∀ k < requests.length, ∃ reply, replies k = .ok reply ∧ reply.IsProper agent) →
        ∃ ending, run.1 = .ok ending) := by
  intro run replies
  have hstart : agent.History prompt replies 0 [.prompt prompt] := .start
  obtain ⟨requests, hrequests, hleft, hsaid, hturns, hends⟩ :=
    takeTurns_requests limit limit.tries hstart rfl
  have htries : (limit.tries : Int) = max limit.toValue.asInt 0 := by
    cases limit with
    | number n => exact Int.toNat_eq_max n
    | flag b => cases b <;> rfl
  refine ⟨requests, hrequests, ?_, by omega, ?_, hends⟩
  · intro i request hi
    have hexchange := (hsaid i request hi).isExchange
    rwa [Nat.zero_add] at hexchange
  · intro hlimit ending hending
    rcases hturns ending hending with hturn | ⟨rfl, hall⟩
    · rw [hturn, Nat.zero_add]
      rfl
    · rw [hall, htries, Int.max_eq_left hlimit]
      rfl

/-- A model that asks for two tools, of which the first fails, and then answers. -/
def askingTwice : Nat → Except String Reply
  | 0 => .ok ⟨.toolUse, [.text (.str "Veamos."),
      .toolUse (.str "t1") (.str "analyze_loops") (.dict []),
      .toolUse (.str "t2") (.str "count_operations_in_loop") (.dict [("loop_body", .list [])])]⟩
  | _ => .ok ⟨.endTurn, [.text (.str "O(n)")]⟩

theorem isProper_askingTwice (k : Nat) :
    ∃ reply, askingTwice k = .ok reply ∧ reply.IsProper general := by
  cases k with
  | zero =>
    refine ⟨_, rfl, ?_, ?_⟩
    · intro id name input hmem
      simp only [mem_cons, not_mem_nil, or_false, reduceCtorEq, false_or,
        Block.toolUse.injEq] at hmem
      rcases hmem with ⟨-, rfl, -⟩ | ⟨-, rfl, -⟩
      · exact ⟨.loops, by decide⟩
      · exact ⟨.operations, by decide⟩
    · intro content hmem
      simp only [mem_cons, not_mem_nil, or_false, reduceCtorEq,
        Block.text.injEq] at hmem
      exact ⟨_, by rw [hmem]; rfl⟩
  | succ k =>
    refine ⟨_, rfl, ?_, ?_⟩
    · intro id name input hmem
      simp at hmem
    · intro content hmem
      simp only [mem_singleton, Block.text.injEq] at hmem
      exact ⟨_, by rw [hmem]; rfl⟩

/-- Two requests are made, and two turns are reported. -/
theorem converse_isExchange_askingTwice : ∃ requests ending request,
    ((general.converse (.str "f") 4).outcome ⟨some askingTwice, none⟩ Log.empty).2.requests
      = requests ∧
    ((general.converse (.str "f") 4).outcome ⟨some askingTwice, none⟩ Log.empty).1
      = .ok ending ∧
    requests.length = 2 ∧ ending.turns.asInt = 2 ∧ requests[1]? = some request ∧
    IsExchange (.str "f") (fun k => askingTwice (0 + k)) 1 request.messages := by
  obtain ⟨requests, hrequests, hexchange, -, hturns, hends⟩ :=
    converse_isExchange general (.str "f") 4 ⟨some askingTwice, none⟩ Log.empty
  have htwo : requests.length = 2 := by
    have hlength := congrArg List.length hrequests
    rw [show Log.empty.requests ++ requests = requests from rfl] at hlength
    rw [← hlength]
    decide +kernel
  obtain ⟨ending, hending⟩ := hends fun k _ => isProper_askingTwice (0 + k)
  have hone : 1 < requests.length := by omega
  exact ⟨requests, ending, requests[1], hrequests, hending, htwo,
    by rw [hturns (by decide) ending hending, htwo]; rfl, List.getElem?_eq_getElem hone,
    hexchange 1 _ (List.getElem?_eq_getElem hone)⟩

/-- With a negative limit no request is made, but the limit itself is reported as the number of
    turns, and it is less than the number of requests. -/
theorem converse_negative_limit :
    ((Agent.general.converse (.str "f") (.number (-1))).outcome ⟨some askingTwice, none⟩
        Log.empty).2.requests = [] ∧
      ∃ ending, ((Agent.general.converse (.str "f") (.number (-1))).outcome
          ⟨some askingTwice, none⟩ Log.empty).1 = .ok ending ∧
        ending.turns.asInt ≠ (([] : List Request).length : Int) ∧
        ¬(([] : List Request).length : Int) ≤ (Limit.number (-1)).toValue.asInt :=
  ⟨rfl, _, rfl, by decide, by decide⟩

end Agent

end Ordo
