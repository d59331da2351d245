import Ordo.Agent.Tool

namespace Ordo

/-!
# Dialogues

A computation that talks to the outside: it may ask a language model, query the cache and print
text.  It is kept as a tree of what it does next for each answer it may get, so a statement
about it can range over everything the outside may do.

* `Block`, `Reply`, `Message`, `Request` — what is exchanged with the model;
* `Query` — what is asked of the cache;
* `Dialogue` — the computations, a lawful monad;
* `Services`, `Log`, `Dialogue.run` — what the outside does, what it sees, and the result;
* `Dialogue.run_bind` — a run of two computations is a run of one after a run of the other.
-/

/-! ### The model -/

/-- A part of a reply. -/
inductive Block
  /-- Something written, which is a text unless the reply is odd. -/
  | text (content : Value)
  /-- The model asks for a tool. -/
  | toolUse (id name input : Value)
  /-- Any other part. -/
  | other (data : Value)

/-- Why a reply ends. -/
inductive StopReason
  | endTurn
  | toolUse
  | other (reason : String)
  deriving DecidableEq, Repr

/-- A reply of the model. -/
structure Reply where
  stop : StopReason
  content : List Block

/-- The result of a tool that a reply asked for. -/
structure ToolResult where
  id : Value
  content : String

/-- A message of a conversation. -/
inductive Message
  | prompt (content : Value)
  | assistant (content : List Block)
  | results (results : List ToolResult)

/-- Whose message it is. -/
inductive Role
  | user | assistant
  deriving DecidableEq, Repr

/-- Whose message it is: the model's are the assistant's. -/
def Message.role : Message → Role
  | prompt _ | results _ => .user
  | assistant _ => .assistant

/-- A request to the model. -/
structure Request where
  messages : List Message
  /-- The tools that may be asked for, if tools are spoken of at all. -/
  tools : Option (List Tool)
  maxTokens : Nat

/-- The model that is asked. -/
def Request.model : String := "claude-sonnet-4-20250514"

/-! ### The cache -/

/-- A query of the cache. -/
inductive Query
  /-- The rows with a key. -/
  | find (key : String)
  /-- All rows, the newest first. -/
  | all
  /-- Changes columns of the row with an identifier. -/
  | update (id : Value) (columns : List (String × Value))
  /-- Adds a row. -/
  | insert (columns : List (String × Value))

/-! ### Computations -/

/-- A computation that talks to the outside. -/
inductive Dialogue (α : Type) : Type
  | done (result : α)
  /-- Asks whether there is a key to the model. -/
  | connect (next : Bool → Dialogue α)
  /-- Asks the model, which replies or fails with a message. -/
  | ask (request : Request) (next : Except String Reply → Dialogue α)
  /-- Queries the cache, which answers or fails with a message. -/
  | query (query : Query) (next : Except String Value → Dialogue α)
  | print (text : String) (next : Dialogue α)

namespace Dialogue

/-- One computation after another. -/
def bind {α β : Type} : Dialogue α → (α → Dialogue β) → Dialogue β
  | done a, f => f a
  | connect next, f => connect fun b => (next b).bind f
  | ask r next, f => ask r fun reply => (next reply).bind f
  | query q next, f => query q fun answer => (next answer).bind f
  | print s next, f => print s (next.bind f)

@[simp] theorem bind_done {α : Type} (d : Dialogue α) : d.bind done = d := by
  induction d with
  | done a => rfl
  | connect next ih => simp only [bind, ih]
  | ask r next ih => simp only [bind, ih]
  | query q next ih => simp only [bind, ih]
  | print s next ih => simp only [bind, ih]

theorem bind_assoc {α β γ : Type} (d : Dialogue α) (f : α → Dialogue β) (g : β → Dialogue γ) :
    (d.bind f).bind g = d.bind fun a => (f a).bind g := by
  induction d with
  | done a => rfl
  | connect next ih => simp only [bind, ih]
  | ask r next ih => simp only [bind, ih]
  | query q next ih => simp only [bind, ih]
  | print s next ih => simp only [bind, ih]

instance : Monad Dialogue where
  pure := done
  bind := bind

instance : LawfulMonad Dialogue :=
  LawfulMonad.mk' Dialogue bind_done (fun _ _ => rfl) bind_assoc

/-- Whether there is a key to the model. -/
def hasKey : Dialogue Bool := connect done

/-- The model's reply to a request. -/
def reply (r : Request) : Dialogue (Except String Reply) := ask r done

/-- The cache's answer to a query. -/
def lookup (q : Query) : Dialogue (Except String Value) := query q done

/-- Prints a text. -/
def say (s : String) : Dialogue Unit := print s (done ())

end Dialogue

/-! ### Running -/

/-- What the outside does: the n-th reply of the model, if there is a key to it, and the n-th
    answer of the cache, if it can be reached. -/
structure Services where
  model : Option (Nat → Except String Reply)
  cache : Option (Nat → Except String Value)

/-- What the outside sees. -/
structure Log where
  requests : List Request
  queries : List Query
  printed : String

/-- Nothing seen yet. -/
def Log.empty : Log := ⟨[], [], ""⟩

/-- What is said when the cache cannot be reached. -/
def Services.unreachable : String := "sin conexión"

namespace Dialogue

/-- The result of a computation and what is seen of it. -/
def run {α : Type} (services : Services) : Dialogue α → Log → α × Log
  | done a, log => (a, log)
  | connect next, log => (next services.model.isSome).run services log
  | ask r next, log =>
      let answer := match services.model with
        | some model => model log.requests.length
        | none => .error ""
      (next answer).run services { log with requests := log.requests ++ [r] }
  | query q next, log =>
      match services.cache with
      | some cache =>
          (next (cache log.queries.length)).run services
            { log with queries := log.queries ++ [q] }
      | none => (next (.error Services.unreachable)).run services log
  | print s next, log => next.run services { log with printed := log.printed ++ s }

/-- A computation after another sees what the first one leaves. -/
theorem run_bind {α β : Type} (services : Services) (d : Dialogue α) (f : α → Dialogue β)
    (log : Log) : (d.bind f).run services log
      = (f (d.run services log).1).run services (d.run services log).2 := by
  induction d generalizing log with
  | done a => rfl
  | connect next ih => simp only [bind, run, ih]
  | ask r next ih => simp only [bind, run, ih]
  | query q next ih =>
      simp only [bind, run]
      split <;> exact ih _ _
  | print s next ih => simp only [bind, run, ih]

end Dialogue

end Ordo
