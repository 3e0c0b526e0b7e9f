/-
# The takeover questions

farlandd's bookkeeping of the questions that are out (`consent.cpp`): which
client or login asks for which session, until when, and what an answer means.
A prompt is found by its connection number alone.
-/
import Farland.Daemon.Registry
import Farland.Server.Broker

namespace Farland
namespace Daemon

open Server.Broker

/-- Who wants the session, as the prompt names them. -/
structure Party where
  user : Text
  peer : Text := []
  clientName : Text := []
  deriving DecidableEq

/-- A prompt that is over. -/
structure Resolved where
  session : ℕ
  connection : ℕ
  allowed : Bool
  /-- The agent still shows the prompt. -/
  withdraw : Bool
  reason : Text
  deriving DecidableEq

structure Prompt where
  session : ℕ
  connection : ℕ
  deadline : Time
  deriving DecidableEq

/-- What a connection may do with a session that someone may hold. -/
inductive Takeover where
  | handOver | ask | refuse
  deriving DecidableEq

structure ConsentBroker where
  policy : PolicySection := {}
  prompts : List Prompt := []
  deriving DecidableEq

namespace ConsentBroker

def answerGrace : Time := 3 * second

/-- Longest string the broker protocol takes for a peer or a client name. -/
def maxDetail : ℕ := 255

def shorten (t : Text) : Text := t.take maxDetail

variable (b : ConsentBroker)

/-- `admit`. -/
def takeoverOf (held : Bool) : Takeover :=
  if held = false then .handOver
  else
    match b.policy.takeover with
    | .ask => .ask
    | .always => .handOver
    | .never => .refuse

def refusal (account : Text) : Text :=
  text "the session of " ++ account ++ text " is in use and takeover = \"" ++ b.policy.takeover.toText ++ text "\""

variable (connection : ℕ)

/-- Forgets the prompt for a connection without resolving it. -/
def forget : ConsentBroker :=
  { b with prompts := b.prompts.filter fun p => p.connection != connection }

/-- The prompt that `ask` records. -/
def promptOf (session connection : ℕ) (now : Time) : Prompt :=
  ⟨session, connection, now + b.policy.takeoverTimeout * second + answerGrace⟩

/-- The message that `ask` returns. -/
def requestOf (who : Party) : ConsentRequest where
  connectionId := connection
  user := shorten who.user
  peer := shorten who.peer
  clientName := shorten who.clientName
  timeoutSeconds := b.policy.takeoverTimeout
  allowOnTimeout := b.policy.takeoverOnTimeout == .allow

/-- Records a prompt; an earlier one for the connection is replaced. -/
def ask (session connection : ℕ) (who : Party) (now : Time) : ConsentBroker × ConsentRequest :=
  ({ b.forget connection with prompts := (b.forget connection).prompts ++ [b.promptOf session connection now] },
    b.requestOf connection who)

variable (p : Prompt)

/-- What `takeover_on_timeout` says. -/
def onDefault (why : Text) (withdraw : Bool) : Resolved where
  session := p.session
  connection := p.connection
  allowed := b.policy.takeoverOnTimeout == .allow
  withdraw := withdraw
  reason := why ++ text s!" within {b.policy.takeoverTimeout} s; takeover_on_timeout = \"" ++
    b.policy.takeoverOnTimeout.toText ++ text "\""

/-- What an answer makes of a prompt. -/
def answer : ConsentAnswer → Resolved
  | .allowed => ⟨p.session, p.connection, true, false, text "the user handed the session over"⟩
  | .denied => ⟨p.session, p.connection, false, false, text "the user kept the session"⟩
  | .timedOut => b.onDefault p (text "nobody answered") false
  | .unavailable => b.onDefault p (text "the session has no notification service to ask in") false

/-- The first prompt of a connection. -/
def find (b : ConsentBroker) (connection : ℕ) : Option Prompt := b.prompts.find? fun p => p.connection == connection

/-- The agent answered. -/
def answered (a : ConsentAnswer) : ConsentBroker × Option Resolved :=
  match b.find connection with
  | none => (b, none)
  | some p => ({ b with prompts := b.prompts.erase p }, some (b.answer p a))

variable (session : ℕ)

/-- The prompts of a session, and the others. -/
def take : ConsentBroker × List Prompt :=
  ({ b with prompts := b.prompts.filter fun p => p.session != session },
    b.prompts.filter fun p => p.session == session)

def releasedOf : Resolved :=
  ⟨p.session, p.connection, true, true, text "nobody holds the session any more"⟩

/-- Nobody holds the session any more: its prompts succeed. -/
def released : ConsentBroker × List Resolved :=
  ((b.take session).1, (b.take session).2.map releasedOf)

def endedOf : Resolved :=
  ⟨p.session, p.connection, false, false, text "the session ended while its user was asked"⟩

/-- The session is gone: its prompts fail. -/
def ended : ConsentBroker × List Resolved :=
  ((b.take session).1, (b.take session).2.map endedOf)

/-- What the deadline makes of a prompt. -/
def dueOf : Resolved := b.onDefault p (text "the agent did not answer") true

/-- The prompts whose time is up. -/
def due (now : Time) : ConsentBroker × List Resolved :=
  ({ b with prompts := b.prompts.filter fun p => ! decide (p.deadline ≤ now) },
    (b.prompts.filter fun p => p.deadline ≤ now).map b.dueOf)

def waiting : Bool := (b.find connection).isSome

/-! ### What becomes of a prompt -/

theorem mem_of_find {b : ConsentBroker} {connection : ℕ} {p : Prompt} (h : b.find connection = some p) :
    p ∈ b.prompts ∧ p.connection = connection := by
  refine ⟨List.mem_of_find?_eq_some h, ?_⟩
  have := List.find?_some h
  simpa using this

variable (b : ConsentBroker)

@[simp] theorem answer_session (a : ConsentAnswer) :
    (b.answer p a).session = p.session := by cases a <;> rfl

@[simp] theorem answer_connection (a : ConsentAnswer) :
    (b.answer p a).connection = p.connection := by cases a <;> rfl

variable (connection : ℕ) (a : ConsentAnswer)

/-- Answers keep the policy. -/
@[simp] theorem answered_policy : (b.answered connection a).1.policy = b.policy := by
  unfold answered
  cases b.find connection <;> rfl

/-- The prompt that a reply is taken for goes, and no other. -/
theorem answered_prompts : ((b.find connection).toList ++ (b.answered connection a).1.prompts).Perm b.prompts := by
  unfold answered
  cases hf : b.find connection with
  | none => simp
  | some p => exact (List.perm_cons_erase (mem_of_find hf).1).symm

/-- What a reply resolves. -/
theorem answered_resolved : (b.answered connection a).2 = (b.find connection).map fun p => b.answer p a := by
  unfold answered
  cases b.find connection <;> rfl

theorem take_prompts : ((b.take session).2 ++ (b.take session).1.prompts).Perm b.prompts :=
  List.filter_append_perm (fun p : Prompt => p.session == session) b.prompts

theorem due_prompts (now : Time) :
    ((b.prompts.filter fun p => p.deadline ≤ now) ++ (b.due now).1.prompts).Perm b.prompts :=
  List.filter_append_perm (fun p : Prompt => decide (p.deadline ≤ now)) b.prompts

theorem forget_prompts :
    ((b.prompts.filter fun p => p.connection == connection) ++ (b.forget connection).prompts).Perm b.prompts :=
  List.filter_append_perm (fun p : Prompt => p.connection == connection) b.prompts

end ConsentBroker
end Daemon
end Farland
