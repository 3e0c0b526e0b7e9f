/-
# Questions and their answers

The questions about one session: farlandd asks its agent whether a client, or
somebody who logs in at the machine, may take the session over, and the agent
shows one question at a time. A reply names the question by its connection
number alone, and the agent's prompt outlives the farlandd that asked it,
while numbers start again with the next one: an answer to a question of
before the restart is then taken for the new question of that number. And a
question that comes while another is shown takes it down without a reply, so
that the first one's prompt runs into its deadline.

`Question.serial`, `Host.built`, `Host.answers`, `Agent.takenDown` and
`System.expired` are history variables.

Key theorems: `step_inv`, `run_ownQuestion`, `stale_answer`.
-/
import Farland.Daemon.Impl
import Farland.Lib.OneAtATime

namespace Farland
namespace Broker
namespace Prompts

open Daemon Server.Broker OneAtATime List Option ConsentBroker

/-! ### Messages -/

/-- A request, and which of all requests it is. -/
structure Question where
  request : ConsentRequest
  serial : ℕ
  deriving DecidableEq

def Question.number (q : Question) : ℕ := q.request.connectionId

/-- What the agent sends. -/
inductive Report where
  | hello
  /-- A connection ended; `free` if nobody holds the session any more. -/
  | disconnect (free : Bool)
  /-- The answer to a question; the message has only its number. -/
  | reply (question : Question) (answer : ConsentAnswer)
  deriving DecidableEq

/-- What farlandd sends. -/
inductive Order where
  | request (question : Question)
  | cancel (connection : ℕ)
  deriving DecidableEq

def Report.question : Report → Option Question
  | .reply question _ => some question
  | .hello | .disconnect _ => none

def Order.question : Order → Option Question
  | .request question => some question
  | .cancel _ => none

/-! ### farlandd -/

structure Host where
  session : ℕ := 1
  consent : ConsentBroker := {}
  nextConnection : ℕ := 1
  nextSeatConnection : ℕ := seatConnectionBit
  /-- Clients that were accepted and not asked about. -/
  clients : List ℕ := []
  /-- The client that is asked about. -/
  asking : Option ℕ := none
  /-- The numbers of the questions about logins at the machine. -/
  seatQuestions : List ℕ := []
  /-- Prompts that are over, to be acted on. -/
  resolutions : List Resolved := []
  /-- The agent has said Hello. -/
  greeted : Bool := false
  inbox : List Report := []
  /-- The questions built for the prompts, newest first. -/
  built : List Question := []
  /-- For each prompt that a reply resolved: its question, and the question
  that was answered. -/
  answers : List (Option Question × Question) := []
  deriving DecidableEq

namespace Host

variable (h : Host)

/-- The question that was built for the prompt of a connection. -/
def questionOf (connection : ℕ) : Option Question := h.built.find? fun q => q.number == connection

def acceptClient : Host :=
  { h with clients := h.nextConnection :: h.clients, nextConnection := (h.nextConnection + 1) % 2 ^ 64 }

/-- An agent reported a connection. -/
def keepFrom (number : ℕ) : Host :=
  { h with nextConnection := max h.nextConnection ((number + 1) % 2 ^ 64) }

/-- The question that a prompt's request is. -/
def questionFor (connection : ℕ) (who : Party) (fromSeat : Bool) (serial : ℕ) : Question :=
  ⟨{ h.consent.requestOf connection who with fromSeat }, serial⟩

/-- A prompt and its question. -/
def put (connection : ℕ) (who : Party) (fromSeat : Bool) (serial : ℕ) (now : Time) : Host :=
  { h with
    consent := (h.consent.ask h.session connection who now).1
    built := h.questionFor connection who fromSeat serial :: h.built }

/-- A newer client takes the place of the one that is asked about. -/
def replaceAsking : Host :=
  match h.asking with
  | none => h
  | some older => { h with asking := none, consent := h.consent.forget older }

def askConsent (client : ℕ) (who : Party) (serial : ℕ) (now : Time) : Host × List Order :=
  let h := { h.replaceAsking with clients := h.clients.erase client }
  ({ h.put client who false serial now with asking := some client },
    [.request (h.questionFor client who false serial)])

/-- A login at the machine is asked about. -/
def askTheSeat (account : Text) (serial : ℕ) (now : Time) : Host × List Order :=
  let connection := h.nextSeatConnection
  ({ h.put connection { user := account } true serial now with
      nextSeatConnection := (connection + 1) % 2 ^ 64
      seatQuestions := connection :: h.seatQuestions },
    [.request (h.questionFor connection { user := account } true serial)])

/-- One message in `read_agent`. -/
def receive : Report → Host
  | .hello => { h with consent := (h.consent.ended h.session).1, asking := none }  -- the link refuses it
  | .disconnect free =>
    if free then
      { h with
        consent := (h.consent.released h.session).1
        resolutions := h.resolutions ++ (h.consent.released h.session).2 }
    else h
  | .reply question answer =>
    { h with
      consent := (h.consent.answered question.number answer).1
      resolutions := h.resolutions ++ (h.consent.answered question.number answer).2.toList
      answers := h.answers ++
        if h.consent.waiting question.number then [(h.questionOf question.number, question)] else [] }

/-- `read_agent`: all that is there is read. -/
def readAgent (read : List Report) : Host := (h.inbox ++ read).foldl receive { h with inbox := [] }

/-- The prompts whose time is up. -/
def due (h : Host) (now : Time) : Host :=
  { h with
    consent := (h.consent.due now).1
    resolutions := h.resolutions ++ (h.consent.due now).2 }

/-- A prompt that is over is acted on; its question is taken back where the
agent still shows it. -/
def resolve (resolved : Resolved) : Host × List Order :=
  let cancelled := if resolved.withdraw then [.cancel resolved.connection] else []
  if resolved.connection ∈ h.seatQuestions then
    ({ h with seatQuestions := h.seatQuestions.erase resolved.connection }, cancelled)
  else if h.asking = some resolved.connection then ({ h with asking := none }, cancelled)
  else (h, [])

def settleAll : List Resolved → Host → Host × List Order
  | [], h => (h, [])
  | resolved :: rest, h =>
    let first := h.resolve resolved
    ((settleAll rest first.1).1, first.2 ++ (settleAll rest first.1).2)

def settle : Host × List Order := settleAll h.resolutions { h with resolutions := [] }

end Host

/-! ### The agent -/

/-- A question that is shown, and the answer its thread ended with. -/
structure Shown where
  question : Question
  answer : Option ConsentAnswer := none
  deriving DecidableEq

structure Agent where
  prompt : Option Shown := none
  /-- Its socket leads to the farlandd that runs now. -/
  attached : Bool := false
  /-- The questions taken down for another one. -/
  takenDown : List Question := []
  deriving DecidableEq

namespace Agent

variable (a : Agent)

/-- The question that is shown. -/
def question : Option Question := a.prompt.map (·.question)

def withdrawPrompt : Agent := { a with prompt := none }

/-- One question at a time. -/
def startPrompt (question : Question) : Agent :=
  { a.withdrawPrompt with prompt := some { question }, takenDown := a.takenDown ++ a.question.toList }

def finishPrompt : Agent × List Report :=
  match a.prompt with
  | some ⟨question, some answer⟩ => ({ a with prompt := none }, [.reply question answer])
  | _ => (a, [])

def receive : Order → Agent
  | .request question => a.startPrompt question
  | .cancel connection => if a.question.any (·.number == connection) then a.withdrawPrompt else a

/-- The asking thread ends. -/
def answerWith (answer : ConsentAnswer) : Agent :=
  { a with prompt := a.prompt.map fun p => { p with answer := p.answer.or (some answer) } }

end Agent

/-! ### Both -/

structure System where
  policy : PolicySection := {}
  host : Host := {}
  agent : Agent := {}
  /-- From the agent to farlandd. -/
  up : List Report := []
  /-- From farlandd to the agent. -/
  down : List Order := []
  serial : ℕ := 0
  /-- The questions of prompts that ran into their deadline, and whether the
  agent had taken them down for another one by then. -/
  expired : List (Option Question × Bool) := []
  deriving DecidableEq

namespace System

/-- The session is in farlandd's table, and its agent has not said Hello. -/
def start (policy : PolicySection) (session : ℕ) : System where
  policy
  host := { session, consent := { policy } }

inductive Event where
  /-- A client is accepted, for this session or another. -/
  | accept
  /-- An agent reports a connection. -/
  | reported (number : ℕ)
  /-- A client wants the session, which somebody holds. -/
  | askConsent (client : ℕ) (who : Party) (now : Time)
  /-- Somebody logs in at the machine. -/
  | askTheSeat (account : Text) (now : Time)
  | due (now : Time)
  | settle
  /-- farlandd reads so many messages. -/
  | readHost (count : ℕ)
  /-- The agent reads a message. -/
  | readAgent
  /-- The asking thread ends. -/
  | threadEnds (answer : ConsentAnswer)
  | finishPrompt
  /-- The agent reports the end of a connection. -/
  | disconnect (free : Bool)
  | restart
  | reattach
  deriving DecidableEq

variable (s : System)

/-- What the agent sends reaches farlandd, or nobody. -/
def send (sent : List Report) : List Report := if s.agent.attached then s.up ++ sent else s.up

/-- `read_unclaimed` on what was read of a new agent socket; what came with
the Hello stays in the inbox. -/
def readUnclaimed (count : ℕ) : System :=
  match s.up.take count with
  | [] => s
  | .hello :: rest => { s with host := { s.host with greeted := true, inbox := rest }, up := s.up.drop count }
  | .disconnect _ :: _ | .reply _ _ :: _ =>  -- no Hello: the socket is closed
    { s with agent := { s.agent with attached := false }, up := [] }

def step : Event → System
  | .accept => { s with host := s.host.acceptClient }
  | .reported number => { s with host := s.host.keepFrom number }
  | .askConsent client who now =>
    if client ∈ s.host.clients ∧ s.host.greeted then
      { s with
        host := (s.host.askConsent client who s.serial now).1
        down := s.down ++ (s.host.askConsent client who s.serial now).2
        serial := s.serial + 1 }
    else s
  | .askTheSeat account now =>
    if s.host.greeted then
      { s with
        host := (s.host.askTheSeat account s.serial now).1
        down := s.down ++ (s.host.askTheSeat account s.serial now).2
        serial := s.serial + 1 }
    else s
  | .due now =>
    { s with
      host := s.host.due now
      expired := s.expired ++ (s.host.consent.prompts.filter fun p => p.deadline ≤ now).map fun p =>
        (s.host.questionOf p.connection, (s.host.questionOf p.connection).any (· ∈ s.agent.takenDown)) }
  | .settle => { s with host := s.host.settle.1, down := s.down ++ s.host.settle.2 }
  | .readHost count =>
    if s.up = [] then s
    else if s.host.greeted then { s with host := s.host.readAgent (s.up.take count), up := s.up.drop count }
    else s.readUnclaimed count
  | .readAgent =>
    match s.down with
    | [] => s
    | order :: rest => { s with agent := s.agent.receive order, down := rest }
  | .threadEnds answer => { s with agent := s.agent.answerWith answer }
  | .finishPrompt => { s with agent := s.agent.finishPrompt.1, up := s.send s.agent.finishPrompt.2 }
  | .disconnect free => { s with up := s.send [.disconnect free] }
  | .restart =>
    { s with
      host := { session := s.host.session, consent := { policy := s.policy }, answers := s.host.answers }
      agent := { s.agent with attached := false }
      up := [] }
  | .reattach =>
    if s.agent.attached then s
    else { s with agent := { s.agent with attached := true }, up := [.hello], down := [] }

def run (events : List Event) : System := events.foldl step s

/-! ### What is claimed -/

/-- A prompt that a reply resolved got the answer to its own question. -/
def OwnAnswers : Prop := ∀ e ∈ s.host.answers, e.1 = some e.2

/-- No prompt ran into its deadline after its question was taken down for
another one. -/
def NotTakenDown : Prop := ∀ e ∈ s.expired, e.2 = false

instance (s : System) : Decidable s.OwnAnswers := inferInstanceAs (Decidable (∀ e ∈ _, _))
instance (s : System) : Decidable s.NotTakenDown := inferInstanceAs (Decidable (∀ e ∈ _, _))

/-! ### When it holds -/

/-- The questions that are answered and whose reply is on its way. -/
def replies : List Question := (s.host.inbox ++ s.up).filterMap (·.question)

/-- The questions at the agent, and those that are on their way to it. -/
def ahead : List Question := s.agent.question.toList ++ s.down.filterMap (·.question)

/-- The number that a step asks under. -/
def asks : Event → Option ℕ
  | .askConsent client _ _ => if client ∈ s.host.clients ∧ s.host.greeted then some client else none
  | .askTheSeat _ _ => if s.host.greeted then some s.host.nextSeatConnection else none
  | _ => none

/-- A question gets a number that no question at the agent or on its way has. -/
def Fresh (e : Event) : Prop := ∀ number ∈ s.asks e, ∀ q ∈ s.ahead ++ s.replies, q.number ≠ number

/-- The prompts that are out when a step asks. -/
def out : Event → List Prompt
  | .askConsent client _ _ =>
    if client ∈ s.host.clients ∧ s.host.greeted then s.host.replaceAsking.consent.prompts else []
  | .askTheSeat _ _ => if s.host.greeted then s.host.consent.prompts else []
  | _ => []

/-- Nothing is asked while another prompt is out, unless its reply is on its
way. -/
def Alone (e : Event) : Prop := ∀ p ∈ s.out e, ∃ q ∈ s.replies, q.number = p.connection

instance (s : System) (e : Event) : Decidable (s.Fresh e) := inferInstanceAs (Decidable (∀ _ ∈ _, ∀ _ ∈ _, _))
instance (s : System) (e : Event) : Decidable (s.Alone e) := inferInstanceAs (Decidable (∀ _ ∈ _, ∃ _ ∈ _, _))

/-- A condition on every step of a run. -/
def Always (P : System → Event → Prop) (s : System) : List Event → Prop
  | [] => True
  | e :: events => P s e ∧ Always P (s.step e) events

instance Always.decidable {P : System → Event → Prop} [∀ s e, Decidable (P s e)] : ∀ (s : System) (events : List Event),
    Decidable (s.Always P events)
  | _, [] => inferInstanceAs (Decidable True)
  | s, e :: events => @instDecidableAnd _ _ _ (Always.decidable (s.step e) events)

end System

/-! ### The broker's prompts -/

theorem waiting_iff {b : ConsentBroker} {connection : ℕ} :
    b.waiting connection = true ↔ ∃ p ∈ b.prompts, p.connection = connection := by
  simp [waiting, find]

namespace Host

theorem number_of_questionOf {h : Host} {connection : ℕ} {q : Question} (hq : h.questionOf connection = some q) :
    q.number = connection := by
  simpa using find?_some hq

/-- What leaves the questions as they are and takes prompts away at most. -/
structure Fewer (h h' : Host) : Prop where
  prompts : h'.consent.prompts.Sublist h.consent.prompts
  built : h'.built = h.built
  greeted : h'.greeted = h.greeted
  inbox : h'.inbox = h.inbox
  answers : h'.answers = h.answers

theorem Fewer.refl (h : Host) : Fewer h h := ⟨List.Sublist.refl _, rfl, rfl, rfl, rfl⟩

theorem Fewer.trans {a b c : Host} (h : Fewer a b) (h' : Fewer b c) : Fewer a c :=
  ⟨h'.prompts.trans h.prompts, h'.built.trans h.built, h'.greeted.trans h.greeted, h'.inbox.trans h.inbox,
    h'.answers.trans h.answers⟩

theorem Fewer.questionOf {h h' : Host} (hf : Fewer h h') (connection : ℕ) :
    h'.questionOf connection = h.questionOf connection := by
  unfold Host.questionOf
  rw [hf.built]

theorem Fewer.waiting {h h' : Host} (hf : Fewer h h') {connection : ℕ} (hw : h'.consent.waiting connection = true) :
    h.consent.waiting connection = true := by
  obtain ⟨p, hp, rfl⟩ := waiting_iff.mp hw
  exact waiting_iff.mpr ⟨p, hf.prompts.subset hp, rfl⟩

variable (h : Host)

theorem fewer_replaceAsking : Fewer h h.replaceAsking := by
  unfold replaceAsking
  cases h.asking with
  | none => exact Fewer.refl h
  | some older => exact ⟨filter_sublist, rfl, rfl, rfl, rfl⟩

theorem fewer_due (now : Time) : Fewer h (h.due now) := ⟨filter_sublist, rfl, rfl, rfl, rfl⟩

theorem fewer_resolve (resolved : Resolved) : Fewer h (h.resolve resolved).1 := by
  simp only [resolve]
  split_ifs <;> exact ⟨List.Sublist.refl _, rfl, rfl, rfl, rfl⟩

theorem fewer_settleAll : ∀ (rs : List Resolved) (h : Host), Fewer h (settleAll rs h).1
  | [], h => Fewer.refl h
  | resolved :: rs, h => (fewer_resolve h resolved).trans (fewer_settleAll rs _)

theorem fewer_settle : Fewer h h.settle.1 := by
  have hall := fewer_settleAll h.resolutions { h with resolutions := [] }
  exact ⟨hall.prompts, hall.built, hall.greeted, hall.inbox, hall.answers⟩

/-- What is settled is asked about no more. -/
theorem resolve_question (resolved : Resolved) :
    (h.resolve resolved).2.filterMap (·.question) = [] := by
  simp only [resolve]
  split_ifs <;> rfl

theorem settleAll_question : ∀ (rs : List Resolved) (h : Host), (settleAll rs h).2.filterMap (·.question) = []
  | [], _ => rfl
  | resolved :: rs, h => by
    rw [settleAll, filterMap_append, resolve_question, settleAll_question rs]
    rfl

/-- What a message of the agent's does. -/
structure Received (h h' : Host) (m : Report) : Prop where
  prompts : h'.consent.prompts.Sublist h.consent.prompts
  built : h'.built = h.built
  greeted : h'.greeted = h.greeted
  inbox : h'.inbox = h.inbox
  answers : ∀ e ∈ h'.answers, e ∈ h.answers ∨
    ∃ q, m.question = some q ∧ h.consent.waiting q.number = true ∧ e = (h.questionOf q.number, q)

theorem answered_sublist (b : ConsentBroker) (connection : ℕ) (answer : ConsentAnswer) :
    (b.answered connection answer).1.prompts.Sublist b.prompts := by
  unfold answered
  cases b.find connection with
  | none => exact List.Sublist.refl _
  | some p => exact erase_sublist

theorem received : ∀ m : Report, Received h (h.receive m) m
  | .hello => ⟨filter_sublist, rfl, rfl, rfl, fun _ he => .inl he⟩
  | .disconnect free => by
    simp only [receive]
    split_ifs
    · exact ⟨filter_sublist, rfl, rfl, rfl, fun _ he => .inl he⟩
    · exact ⟨List.Sublist.refl _, rfl, rfl, rfl, fun _ he => .inl he⟩
  | .reply question answer => by
    refine ⟨answered_sublist _ _ _, rfl, rfl, rfl, fun e he => ?_⟩
    rcases mem_append.mp he with he | he
    · exact .inl he
    · split_ifs at he with hw
      · exact .inr ⟨question, rfl, hw, mem_singleton.mp he⟩
      · cases he

/-- Messages do not go back to the inbox. -/
theorem receive_emptied (m : Report) :
    ({ ({ h with inbox := [] } : Host).receive m with inbox := [] } : Host) =
      ({ h with inbox := [] } : Host).receive m := by
  have hi : (({ h with inbox := [] } : Host).receive m).inbox = [] := (received _ m).inbox
  generalize ({ h with inbox := [] } : Host).receive m = h1 at hi
  rcases h1 with ⟨⟩
  simp only at hi
  rw [hi]

/-- A prompt with its question, and what is left of the others. -/
structure Asked (h h' : Host) (q : Question) : Prop where
  prompts : ∃ left p, h'.consent.prompts = left ++ [p] ∧ p.connection = q.number ∧
    left.Sublist h.consent.prompts ∧ ∀ p' ∈ left, p'.connection ≠ q.number
  built : h'.built = q :: h.built
  greeted : h'.greeted = h.greeted
  inbox : h'.inbox = h.inbox
  answers : h'.answers = h.answers

theorem asked_put (connection : ℕ) (who : Party) (fromSeat : Bool) (serial : ℕ) (now : Time) :
    Asked h (h.put connection who fromSeat serial now) (h.questionFor connection who fromSeat serial) where
  prompts := ⟨(h.consent.forget connection).prompts, h.consent.promptOf h.session connection now, rfl, rfl,
    filter_sublist, fun p hp => by
      show p.connection ≠ connection
      simpa using (mem_filter.mp hp).2⟩
  built := rfl
  greeted := rfl
  inbox := rfl
  answers := rfl

theorem Fewer.asked {a b c : Host} {q : Question} (h : Fewer a b) (h' : Asked b c q) : Asked a c q := by
  obtain ⟨left, p, hp, hq, hleft, hne⟩ := h'.prompts
  exact ⟨⟨left, p, hp, hq, hleft.trans h.prompts, hne⟩, by rw [h'.built, h.built], h'.greeted.trans h.greeted,
    h'.inbox.trans h.inbox, h'.answers.trans h.answers⟩

theorem asked_askConsent (client : ℕ) (who : Party) (serial : ℕ) (now : Time) :
    ∃ q, (h.askConsent client who serial now).2 = [.request q] ∧ q.number = client ∧ q.serial = serial ∧
      Asked h.replaceAsking (h.askConsent client who serial now).1 q := by
  refine ⟨_, rfl, rfl, rfl, ?_⟩
  have hput := asked_put { h.replaceAsking with clients := h.clients.erase client } client who false serial now
  exact ⟨hput.prompts, hput.built, hput.greeted, hput.inbox, hput.answers⟩

theorem asked_askTheSeat (account : Text) (serial : ℕ) (now : Time) :
    ∃ q, (h.askTheSeat account serial now).2 = [.request q] ∧ q.number = h.nextSeatConnection ∧ q.serial = serial ∧
      Asked h (h.askTheSeat account serial now).1 q := by
  refine ⟨_, rfl, rfl, rfl, ?_⟩
  have hput := asked_put h h.nextSeatConnection { user := account } true serial now
  exact ⟨hput.prompts, hput.built, hput.greeted, hput.inbox, hput.answers⟩

section
variable {h h' : Host} {q : Question}

theorem Asked.questionOf_self (ha : Asked h h' q) : h'.questionOf q.number = some q := by
  simp [Host.questionOf, ha.built]

theorem Asked.questionOf_of_ne (ha : Asked h h' q) {connection : ℕ} (hne : q.number ≠ connection) :
    h'.questionOf connection = h.questionOf connection := by
  unfold Host.questionOf
  rw [ha.built, find?_cons_of_neg (by simpa using hne)]

theorem Asked.mem_of_ne (ha : Asked h h' q) {p : Prompt} (hp : p ∈ h'.consent.prompts) (hne : p.connection ≠ q.number) :
    p ∈ h.consent.prompts := by
  obtain ⟨left, p0, hp0, hq, hleft, -⟩ := ha.prompts
  rw [hp0] at hp
  rcases mem_append.mp hp with hp | hp
  · exact hleft.subset hp
  · rw [mem_singleton.mp hp] at hne
    exact absurd hq hne

theorem Asked.waiting_of_ne (ha : Asked h h' q) {connection : ℕ} (hne : q.number ≠ connection)
    (hw : h'.consent.waiting connection = true) : h.consent.waiting connection = true := by
  obtain ⟨p, hp, rfl⟩ := waiting_iff.mp hw
  exact waiting_iff.mpr ⟨p, ha.mem_of_ne hp (Ne.symm hne), rfl⟩

end
end Host

/-! ### Whose answer a prompt gets -/

namespace System

/-- The questions by their place among all. -/
def line (s : System) : Line where
  inHand := s.agent.question.map (·.serial)
  coming := (s.down.filterMap (·.question)).map (·.serial)
  replied := s.replies.map (·.serial)
  dropped := s.agent.takenDown.map (·.serial)
  next := s.serial

structure Inv (s : System) : Prop where
  /-- Nothing of this farlandd's comes from an agent that is not there. -/
  away : s.agent.attached = false → s.up = [] ∧ s.host.greeted = false
  ungreeted : s.host.greeted = false → s.host.consent.prompts = [] ∧ s.host.inbox = []
  /-- A question at the agent or on its way is that of its number's prompt. -/
  own : ∀ q ∈ s.ahead ++ s.replies, s.host.consent.waiting q.number = true → s.host.questionOf q.number = some q
  answers : s.OwnAnswers
  ordered : Ordered s.line

variable {s : System}

theorem start_inv (policy : PolicySection) (session : ℕ) : Inv (start policy session) where
  away _ := ⟨rfl, rfl⟩
  ungreeted _ := ⟨rfl, rfl⟩
  own q hq := by cases hq
  answers e he := by cases he
  ordered := ⟨List.Pairwise.nil, fun n hn => (by cases hn), fun n hn => (by cases hn), fun n hn => (by cases hn),
    fun n hn => (by cases hn), fun n hn => (by cases hn)⟩

theorem Inv.attached (h : Inv s) (hg : s.host.greeted = true) : s.agent.attached = true := by
  by_contra hf
  rw [(h.away (by simpa using hf)).2] at hg
  cases hg

/-- farlandd takes prompts away, and asks nothing. -/
theorem Inv.fewer (h : Inv s) {h' : Host} (hf : Host.Fewer s.host h') (orders : List Order)
    (ho : orders.filterMap (·.question) = []) (expired : List (Option Question × Bool)) :
    Inv { s with host := h', down := s.down ++ orders, expired } := by
  have hdown : (s.down ++ orders).filterMap (·.question) = s.down.filterMap (·.question) := by
    rw [filterMap_append, ho, append_nil]
  have hreplies : (h'.inbox ++ s.up).filterMap (·.question) = s.replies := by rw [hf.inbox]; rfl
  refine ⟨fun hatt => ⟨(h.away hatt).1, hf.greeted.trans (h.away hatt).2⟩, fun hg => ?_, fun q hq hw => ?_, ?_, ?_⟩
  · obtain ⟨hp, hi⟩ := h.ungreeted (hf.greeted ▸ hg)
    refine ⟨?_, hf.inbox.trans hi⟩
    have := hf.prompts
    rwa [hp, sublist_nil] at this
  · simp only [ahead, replies, hdown, hreplies] at hq
    rw [show h'.questionOf q.number = _ from hf.questionOf q.number]
    exact h.own q hq (hf.waiting hw)
  · show ∀ e ∈ h'.answers, e.1 = some e.2
    rw [hf.answers]
    exact h.answers
  · simp only [line, replies, hdown, hreplies]
    exact h.ordered

/-- farlandd asks, under a number of the question's own. -/
theorem Inv.ask (h : Inv s) (hg : s.host.greeted = true) {h' : Host} {q : Question} (ha : Host.Asked s.host h' q)
    (hserial : q.serial = s.serial) (hfresh : ∀ x ∈ s.ahead ++ s.replies, x.number ≠ q.number) :
    Inv { s with host := h', down := s.down ++ [.request q], serial := s.serial + 1 } := by
  have hdown : (s.down ++ [Order.request q]).filterMap (·.question) = s.down.filterMap (·.question) ++ [q] := by
    rw [filterMap_append]
    rfl
  have hreplies : (h'.inbox ++ s.up).filterMap (·.question) = s.replies := by rw [ha.inbox]; rfl
  have hg' : h'.greeted = true := ha.greeted.trans hg
  refine ⟨fun hatt => ?_, fun hn => ?_, fun x hx hw => ?_, ?_, ?_⟩
  · exact absurd ((h.attached hg).symm.trans hatt) (by simp)
  · exact absurd (hg'.symm.trans hn) (by simp)
  · simp only [ahead, replies, hdown, hreplies, mem_append, mem_singleton] at hx
    have hold : x ∈ s.ahead ++ s.replies → h'.questionOf x.number = some x := fun hin => by
      have hne := (hfresh x hin).symm
      rw [ha.questionOf_of_ne hne]
      exact h.own x hin (ha.waiting_of_ne hne hw)
    rcases hx with (hx | hx | rfl) | hx
    · exact hold (mem_append_left _ (mem_append_left _ hx))
    · exact hold (mem_append_left _ (mem_append_right _ hx))
    · exact ha.questionOf_self
    · exact hold (mem_append_right _ hx)
  · show ∀ e ∈ h'.answers, e.1 = some e.2
    rw [ha.answers]
    exact h.answers
  · simp only [line, replies, hdown, hreplies, map_append, map_singleton, hserial]
    exact h.ordered.make

/-- The agent's socket is closed, and what is in it is lost. -/
theorem Inv.close (h : Inv s) (hg : s.host.greeted = false) :
    Inv { s with agent := { s.agent with attached := false }, up := [] } := by
  have hmem : ∀ q ∈ (s.host.inbox ++ ([] : List Report)).filterMap (·.question), q ∈ s.replies := fun q hq => by
    rw [append_nil] at hq
    exact (List.Sublist.filterMap _ (sublist_append_left s.host.inbox s.up)).subset hq
  refine ⟨fun _ => ⟨rfl, hg⟩, h.ungreeted, fun q hq hw => ?_, h.answers, ?_⟩
  · refine h.own q ?_ hw
    rcases mem_append.mp hq with hq | hq
    · exact mem_append_left _ hq
    · exact mem_append_right _ (hmem q hq)
  · refine h.ordered.lose (List.Sublist.refl _) fun n hn => ?_
    obtain ⟨q, hq, rfl⟩ := mem_map.mp hn
    exact mem_map.mpr ⟨q, hmem q hq, rfl⟩

/-- The same replies, in the socket or in the inbox of a link that greeted. -/
theorem Inv.buffer (h : Inv s) (hatt : s.agent.attached = true) {inbox up : List Report}
    (hsame : (inbox ++ up).filterMap (·.question) = s.replies) :
    Inv { s with host := { s.host with greeted := true, inbox }, up } where
  away hf := absurd (hatt.symm.trans hf) (by simp)
  ungreeted hf := by cases hf
  own q hq hw := by
    simp only [replies, hsame] at hq
    exact h.own q hq hw
  answers := h.answers
  ordered := by
    simp only [line, replies, hsame]
    exact h.ordered

/-- farlandd reads the first message of the inbox. -/
theorem Inv.readOne {h : Host} {m : Report} {ms : List Report} (hI : Inv { s with host := { h with inbox := m :: ms } })
    (hg : h.greeted = true) : Inv { s with host := { h.receive m with inbox := ms } } := by
  have hr := Host.received h m
  have hmem : ∀ q ∈ (ms ++ s.up).filterMap (·.question), q ∈ (m :: ms ++ s.up).filterMap (·.question) :=
    fun q hq => (List.Sublist.filterMap _ (sublist_cons_self m (ms ++ s.up))).subset hq
  have hg' : (h.receive m).greeted = true := hr.greeted.trans hg
  refine ⟨fun hatt => ?_, fun hn => ?_, fun q hq hw => ?_, fun e he => ?_, ?_⟩
  · exact absurd ((hI.away hatt).2.symm.trans hg) (by simp)
  · exact absurd (hg'.symm.trans hn) (by simp)
  · have hq' : q ∈ ({ s with host := { h with inbox := m :: ms } } : System).ahead ++
        ({ s with host := { h with inbox := m :: ms } } : System).replies := by
      rcases mem_append.mp hq with hq | hq
      · exact mem_append_left _ hq
      · exact mem_append_right _ (hmem q hq)
    have hw' : h.consent.waiting q.number = true := by
      obtain ⟨p, hp, hc⟩ := waiting_iff.mp hw
      exact waiting_iff.mpr ⟨p, hr.prompts.subset hp, hc⟩
    have := hI.own q hq' hw'
    simp only [Host.questionOf] at this ⊢
    rwa [hr.built]
  · rcases hr.answers e he with he | ⟨q, hm, hw, rfl⟩
    · exact hI.answers e he
    · refine hI.own q (mem_append_right _ ?_) hw
      exact mem_filterMap.mpr ⟨m, mem_append_left _ mem_cons_self, hm⟩
  · refine hI.ordered.lose (List.Sublist.refl _) fun n hn => ?_
    obtain ⟨q, hq, rfl⟩ := mem_map.mp hn
    exact mem_map.mpr ⟨q, hmem q hq, rfl⟩

/-- farlandd reads the whole inbox. -/
theorem Inv.readAll : ∀ {ms : List Report} {h : Host}, Inv { s with host := { h with inbox := ms } } →
    h.greeted = true → Inv { s with host := ms.foldl Host.receive { h with inbox := [] } }
  | [], _, hI, _ => hI
  | m :: ms, h, hI, hg => by
    have hr := Host.received { h with inbox := [] } m
    have hone : Inv { s with host := { ({ h with inbox := [] } : Host).receive m with inbox := ms } } :=
      Inv.readOne (h := { h with inbox := [] }) hI hg
    have hrest := Inv.readAll (h := ({ h with inbox := [] } : Host).receive m) hone (hr.greeted.trans hg)
    rwa [Host.receive_emptied] at hrest

theorem Inv.readHost (h : Inv s) (hg : s.host.greeted = true) (count : ℕ) :
    Inv { s with host := s.host.readAgent (s.up.take count), up := s.up.drop count } := by
  have hsame : (s.host.inbox ++ s.up.take count ++ s.up.drop count).filterMap (·.question) = s.replies := by
    rw [append_assoc, take_append_drop]
    rfl
  have hmoved := h.buffer (h.attached hg) hsame
  rw [← hg] at hmoved
  exact Inv.readAll (s := { s with up := s.up.drop count }) hmoved hg

theorem Inv.readUnclaimed (h : Inv s) (hg : s.host.greeted = false) (count : ℕ) : Inv (s.readUnclaimed count) := by
  unfold System.readUnclaimed
  cases htake : s.up.take count with
  | nil => exact h
  | cons r rest =>
    have hup : s.up = r :: (rest ++ s.up.drop count) := by
      conv_lhs => rw [← take_append_drop count s.up, htake]
      rfl
    cases r with
    | hello =>
      refine h.buffer ?_ ?_
      · by_contra hf
        rw [(h.away (by simpa using hf)).1] at hup
        cases hup
      · rw [replies, (h.ungreeted hg).2]
        conv_rhs => rw [hup]
        rfl
    | disconnect free | reply question answer => exact h.close hg

/-- A step of the agent: the questions at it and on their way, and what it
says. -/
theorem Inv.agent (h : Inv s) {a : Agent} {sent : List Report} {down : List Order}
    (hatt : a.attached = s.agent.attached)
    (hsub : a.question.toList ++ down.filterMap (·.question) ++ sent.filterMap (·.question) ⊆ s.ahead)
    (hordered : Ordered { s.line with
      inHand := a.question.map (·.serial)
      coming := (down.filterMap (·.question)).map (·.serial)
      replied := s.line.replied ++ (sent.filterMap (·.question)).map (·.serial)
      dropped := a.takenDown.map (·.serial) }) :
    Inv { s with agent := a, up := s.send sent, down } := by
  have hreplies : ∀ q ∈ (s.host.inbox ++ s.send sent).filterMap (·.question),
      q ∈ s.replies ++ sent.filterMap (·.question) := by
    intro q hq
    rw [replies, ← filterMap_append, append_assoc]
    unfold send at hq
    split_ifs at hq
    · exact hq
    · rw [← append_assoc, filterMap_append]
      exact mem_append_left _ hq
  refine ⟨fun hf => ?_, h.ungreeted, fun q hq hw => h.own q ?_ hw, h.answers, ?_⟩
  · have hf' : s.agent.attached = false := hatt ▸ hf
    refine ⟨?_, (h.away hf').2⟩
    show s.send sent = []
    rw [send, hf']
    exact (h.away hf').1
  · rcases mem_append.mp hq with hq | hq
    · exact mem_append_left _ (hsub (mem_append_left _ hq))
    · rcases mem_append.mp (hreplies q hq) with hq | hq
      · exact mem_append_right _ hq
      · exact mem_append_left _ (hsub (mem_append_right _ hq))
  · refine hordered.lose (List.Sublist.refl _) fun n hn => ?_
    obtain ⟨q, hq, rfl⟩ := mem_map.mp hn
    show _ ∈ s.replies.map (·.serial) ++ _
    rw [← map_append]
    exact mem_map.mpr ⟨q, hreplies q hq, rfl⟩

theorem Inv.readAgent (h : Inv s) {order : Order} {rest : List Order} (hd : s.down = order :: rest) :
    Inv { s with agent := s.agent.receive order, down := rest } := by
  have hsend : s.send [] = s.up := by unfold send; split_ifs <;> simp
  have hrest : rest.filterMap (·.question) ⊆ s.down.filterMap (·.question) := by
    rw [hd]
    exact (List.Sublist.filterMap _ (sublist_cons_self order rest)).subset
  have hlost := h.ordered.lose (l := s.line) (List.Sublist.map _ (List.Sublist.filterMap (·.question)
    (hd ▸ sublist_cons_self order rest : rest.Sublist s.down))) (List.Subset.refl s.line.replied)
  have hstep : Inv { s with agent := s.agent.receive order, up := s.send [], down := rest } := by
    cases order with
    | request q =>
      refine h.agent rfl (fun x hx => ?_) ?_
      · simp only [Agent.receive, Agent.startPrompt, Agent.question, map_some, toList_some,
          filterMap_nil, append_nil, mem_append, mem_singleton] at hx
        refine mem_append_right _ ?_
        rcases hx with rfl | hx
        · exact mem_filterMap.mpr ⟨.request x, by rw [hd]; exact mem_cons_self, rfl⟩
        · exact hrest hx
      · have htake := h.ordered.take (l := s.line) (n := q.serial) (by
          show (s.down.filterMap (·.question)).map (·.serial) = _
          rw [hd]
          rfl)
        simp only [filterMap_nil, map_nil, append_nil]
        have hdropped : (s.agent.takenDown ++ s.agent.question.toList).map (·.serial) =
            s.line.dropped ++ s.line.inHand.toList := by
          cases hq : s.agent.question with
          | none | some x => simp [line, hq]
        simp only [Agent.receive, Agent.startPrompt, hdropped]
        exact htake
    | cancel connection =>
      simp only [Agent.receive]
      split_ifs
      · refine h.agent rfl (fun x hx => ?_) ?_
        · simp only [filterMap_nil, append_nil] at hx
          exact mem_append_right _ (hrest hx)
        · simp only [filterMap_nil, map_nil, append_nil]
          exact hlost.withdraw
      · refine h.agent rfl (fun x hx => ?_) ?_
        · simp only [filterMap_nil, append_nil, mem_append] at hx
          rcases hx with hx | hx
          · exact mem_append_left _ hx
          · exact mem_append_right _ (hrest hx)
        · simp only [filterMap_nil, map_nil, append_nil]
          exact hlost
  rwa [hsend] at hstep

theorem Inv.finishPrompt (h : Inv s) :
    Inv { s with agent := s.agent.finishPrompt.1, up := s.send s.agent.finishPrompt.2 } := by
  unfold Agent.finishPrompt
  split
  next question answer hp =>
    have hq : s.agent.question = some question := by simp [Agent.question, hp]
    refine h.agent rfl (fun x hx => ?_) ?_
    · simp only [Agent.question, map_none, toList_none, nil_append, mem_append,
        filterMap_cons, Report.question, filterMap_nil, mem_singleton] at hx
      rcases hx with hx | rfl
      · exact mem_append_right _ hx
      · exact mem_append_left _ (mem_toList.mpr hq)
    · exact h.ordered.finish (n := question.serial) (by simp [line, hq])
  next =>
    refine h.agent rfl (fun x hx => ?_) ?_
    · simpa [ahead] using hx
    · simp only [filterMap_nil, map_nil, append_nil]
      exact h.ordered

theorem answerWith_question (a : Agent) (answer : ConsentAnswer) : (a.answerWith answer).question = a.question := by
  rcases a with ⟨_ | p, attached, takenDown⟩ <;> rfl

theorem Inv.threadEnds (h : Inv s) (answer : ConsentAnswer) : Inv { s with agent := s.agent.answerWith answer } := by
  refine ⟨h.away, h.ungreeted, fun q hq hw => h.own q ?_ hw, h.answers, ?_⟩
  · simp only [ahead, answerWith_question] at hq ⊢
    exact hq
  · simp only [line, answerWith_question]
    exact h.ordered

theorem Inv.restart (h : Inv s) : Inv (s.step .restart) where
  away _ := ⟨rfl, rfl⟩
  ungreeted _ := ⟨rfl, rfl⟩
  own q hq hw := by
    obtain ⟨p, hp, -⟩ := waiting_iff.mp hw
    cases hp
  answers := h.answers
  ordered := h.ordered.lose (List.Sublist.refl _) (nil_subset _)

theorem Inv.reattach (h : Inv s) : Inv (s.step .reattach) := by
  simp only [step]
  split_ifs with hatt
  · exact h
  · have hg := (h.away (by simpa using hatt)).2
    obtain ⟨hprompts, hinbox⟩ := h.ungreeted hg
    refine ⟨fun hf => (by cases hf), h.ungreeted, fun q hq hw => ?_, h.answers, ?_⟩
    · obtain ⟨p, hp, -⟩ := waiting_iff.mp hw
      rw [hprompts] at hp
      cases hp
    · refine h.ordered.lose (nil_sublist _) fun n hn => ?_
      simp [replies, hinbox, Report.question] at hn

theorem step_inv (h : Inv s) : ∀ e : Event, s.Fresh e → Inv (s.step e)
  | .accept, _ => by
    have hf : Host.Fewer s.host s.host.acceptClient := ⟨List.Sublist.refl _, rfl, rfl, rfl, rfl⟩
    have hstep := h.fewer hf [] rfl s.expired
    rwa [append_nil] at hstep
  | .reported number, _ => by
    have hf : Host.Fewer s.host (s.host.keepFrom number) := ⟨List.Sublist.refl _, rfl, rfl, rfl, rfl⟩
    have hstep := h.fewer hf [] rfl s.expired
    rwa [append_nil] at hstep
  | .askConsent client who now, hf => by
    simp only [step]
    split_ifs with hc
    · obtain ⟨q, horders, hnumber, hserial, hasked⟩ := s.host.asked_askConsent client who s.serial now
      rw [horders]
      refine h.ask hc.2 ((s.host.fewer_replaceAsking).asked hasked) hserial ?_
      rw [hnumber]
      exact hf client (by simp [asks, hc])
    · exact h
  | .askTheSeat account now, hf => by
    simp only [step]
    split_ifs with hg
    · obtain ⟨q, horders, hnumber, hserial, hasked⟩ := s.host.asked_askTheSeat account s.serial now
      rw [horders]
      refine h.ask hg hasked hserial ?_
      rw [hnumber]
      exact hf _ (by simp [asks, hg])
    · exact h
  | .due now, _ => by
    have hstep := h.fewer (s.host.fewer_due now) [] rfl
      (s.expired ++ (s.host.consent.prompts.filter fun p => p.deadline ≤ now).map fun p =>
        (s.host.questionOf p.connection, (s.host.questionOf p.connection).any (· ∈ s.agent.takenDown)))
    rwa [append_nil] at hstep
  | .settle, _ => h.fewer s.host.fewer_settle _ (Host.settleAll_question _ _) s.expired
  | .readHost count, _ => by
    simp only [step]
    split_ifs with hup hg
    · exact h
    · exact h.readHost hg count
    · exact h.readUnclaimed (by simpa using hg) count
  | .readAgent, _ => by
    simp only [step]
    cases hd : s.down with
    | nil => exact h
    | cons order rest => exact h.readAgent hd
  | .threadEnds answer, _ => h.threadEnds answer
  | .finishPrompt, _ => h.finishPrompt
  | .disconnect free, _ => by
    refine h.agent rfl (fun x hx => ?_) ?_
    · simpa [ahead, Report.question] using hx
    · show Ordered { s.line with replied := s.line.replied ++ [] }
      rw [append_nil]
      exact h.ordered
  | .restart, _ => h.restart
  | .reattach, _ => h.reattach

/-! ### Questions that are taken down -/

/-- Every prompt is the last question's, or its reply is on its way. -/
structure Timely (s : System) : Prop where
  once : (s.host.consent.prompts.map (·.connection)).Nodup
  built : ∀ p ∈ s.host.consent.prompts, ∃ q, s.host.questionOf p.connection = some q ∧
    (q.serial + 1 = s.serial ∨ q ∈ s.replies)
  expired : s.NotTakenDown

/-- farlandd without a prompt. -/
theorem timely_of_nil (hp : s.host.consent.prompts = []) (he : s.NotTakenDown) : Timely s where
  once := by simp [hp]
  built p hin := by simp [hp] at hin
  expired := he

/-- Prompts go, and no reply is lost. -/
theorem Timely.fewer (h : Timely s) {s' : System} (hprompts : s'.host.consent.prompts.Sublist s.host.consent.prompts)
    (hbuilt : s'.host.built = s.host.built) (hserial : s'.serial = s.serial) (hreplies : s.replies ⊆ s'.replies)
    (he : s'.NotTakenDown) : Timely s' where
  once := h.once.sublist (hprompts.map _)
  built p hp := by
    obtain ⟨q, hq, hlast⟩ := h.built p (hprompts.subset hp)
    refine ⟨q, ?_, ?_⟩
    · simp only [Host.questionOf] at hq ⊢
      rwa [hbuilt]
    · rw [hserial]
      exact hlast.imp id fun hin => hreplies hin
  expired := he

/-- A question that is the last, or whose reply is on its way, was not taken
down for another one. -/
theorem Inv.notTakenDown (h : Inv s) {q : Question} (hq : q.serial + 1 = s.serial ∨ q ∈ s.replies) :
    q ∉ s.agent.takenDown := by
  intro hd
  have hd' : q.serial ∈ s.line.dropped := mem_map.mpr ⟨q, hd, rfl⟩
  rcases hq with hq | hq
  · exact absurd (h.ordered.superseded _ hd') (by simp [line, hq])
  · exact h.ordered.apart _ (mem_map.mpr ⟨q, hq, rfl⟩) hd'

theorem Timely.due (h : Timely s) (hI : Inv s) (now : Time) : Timely (s.step (.due now)) := by
  refine h.fewer (s.host.fewer_due now).prompts rfl rfl (List.Subset.refl _) fun e he => ?_
  rcases mem_append.mp he with he | he
  · exact h.expired e he
  · obtain ⟨p, hp, rfl⟩ := mem_map.mp he
    obtain ⟨q, hq, hlast⟩ := h.built p (mem_filter.mp hp).1
    simpa [hq] using hI.notTakenDown hlast

/-- farlandd asks while every other prompt has its reply on the way. -/
theorem Timely.ask (h : Timely s) (hI : Inv s) {h' : Host} {q : Question} (ha : Host.Asked s.host h' q)
    (hserial : q.serial = s.serial)
    (hout : ∀ p ∈ h'.consent.prompts, p.connection ≠ q.number → ∃ r ∈ s.replies, r.number = p.connection) :
    Timely { s with host := h', down := s.down ++ [.request q], serial := s.serial + 1 } := by
  have hreplies : (h'.inbox ++ s.up).filterMap (·.question) = s.replies := by rw [ha.inbox]; rfl
  obtain ⟨left, p0, hp0, hc0, hleft, hne⟩ := ha.prompts
  refine ⟨?_, fun p hp => ?_, h.expired⟩
  · show (h'.consent.prompts.map (·.connection)).Nodup
    rw [hp0, map_append, map_singleton]
    refine nodup_append.mpr ⟨h.once.sublist (hleft.map _), by simp, fun x hx y hy he => ?_⟩
    obtain ⟨p, hp, rfl⟩ := mem_map.mp hx
    rw [mem_singleton.mp hy, hc0] at he
    exact hne p hp he
  · by_cases hnumber : p.connection = q.number
    · refine ⟨q, ?_, .inl (by rw [hserial])⟩
      show h'.questionOf p.connection = some q
      rw [hnumber]
      exact ha.questionOf_self
    · obtain ⟨r, hr, hrp⟩ := hout p hp hnumber
      refine ⟨r, ?_, .inr ?_⟩
      · show h'.questionOf p.connection = some r
        have hw : s.host.consent.waiting p.connection = true :=
          ha.waiting_of_ne (Ne.symm hnumber) (waiting_iff.mpr ⟨p, hp, rfl⟩)
        rw [ha.questionOf_of_ne (Ne.symm hnumber), ← hrp]
        exact hI.own r (mem_append_right _ hr) (hrp ▸ hw)
      · show r ∈ (h'.inbox ++ s.up).filterMap (·.question)
        rw [hreplies]
        exact hr

/-- A reply that is read leaves no prompt of its number. -/
theorem answered_ne {b : ConsentBroker} (hn : (b.prompts.map (·.connection)).Nodup) {connection : ℕ}
    {answer : ConsentAnswer} {p : Prompt} (hp : p ∈ (b.answered connection answer).1.prompts) :
    p.connection ≠ connection := by
  intro hc
  unfold answered at hp
  cases hf : b.find connection with
  | none =>
    rw [hf] at hp
    have hw : b.waiting connection = true := waiting_iff.mpr ⟨p, hp, hc⟩
    rw [waiting, hf] at hw
    cases hw
  | some p0 =>
    rw [hf] at hp
    obtain ⟨hin, hc0⟩ := mem_of_find hf
    have hsame : p = p0 := inj_on_of_nodup_map hn (mem_of_mem_erase hp) hin (hc.trans hc0.symm)
    exact hn.of_map.not_mem_erase (hsame ▸ hp)

theorem Timely.readOne {h : Host} {m : Report} {ms : List Report}
    (ht : Timely { s with host := { h with inbox := m :: ms } }) :
    Timely { s with host := { h.receive m with inbox := ms } } := by
  have hr := Host.received h m
  refine ⟨ht.once.sublist (hr.prompts.map _), fun p hp => ?_, ht.expired⟩
  obtain ⟨q, hq, hlast⟩ := ht.built p (hr.prompts.subset hp)
  refine ⟨q, ?_, hlast.imp id fun hin => ?_⟩
  · simp only [Host.questionOf] at hq ⊢
    rwa [hr.built]
  · obtain ⟨r, hrm, hrq⟩ := mem_filterMap.mp hin
    rcases mem_cons.mp (show r ∈ m :: (ms ++ s.up) from hrm) with rfl | hrm
    · cases r with
      | hello | disconnect free => cases hrq
      | reply question answer =>
        obtain rfl : question = q := Option.some.inj hrq
        exact absurd (Host.number_of_questionOf hq).symm (answered_ne ht.once hp)
    · exact mem_filterMap.mpr ⟨r, hrm, hrq⟩

theorem Timely.readAll : ∀ {ms : List Report} {h : Host}, Timely { s with host := { h with inbox := ms } } →
    Timely { s with host := ms.foldl Host.receive { h with inbox := [] } }
  | [], _, ht => ht
  | m :: ms, h, ht => by
    have hone : Timely { s with host := { ({ h with inbox := [] } : Host).receive m with inbox := ms } } :=
      Timely.readOne (h := { h with inbox := [] }) ht
    have hrest := Timely.readAll hone
    rwa [Host.receive_emptied] at hrest

/-- Reading the agent, for a link that greeted. -/
theorem Timely.readHost (h : Timely s) (count : ℕ) :
    Timely { s with host := s.host.readAgent (s.up.take count), up := s.up.drop count } := by
  refine Timely.readAll (s := { s with up := s.up.drop count }) (h.fewer (List.Sublist.refl _) rfl rfl ?_ h.expired)
  intro q hq
  show q ∈ (s.host.inbox ++ s.up.take count ++ s.up.drop count).filterMap (·.question)
  rwa [append_assoc, take_append_drop]

/-- A step of the agent, which only adds to what it says. -/
theorem Timely.agent (h : Timely s) (a : Agent) (sent : List Report) (down : List Order) :
    Timely { s with agent := a, up := s.send sent, down } := by
  refine h.fewer (List.Sublist.refl _) rfl rfl ?_ h.expired
  intro q hq
  obtain ⟨r, hr, hrq⟩ := mem_filterMap.mp hq
  refine mem_filterMap.mpr ⟨r, ?_, hrq⟩
  rcases mem_append.mp hr with hr | hr
  · exact mem_append_left _ hr
  · refine mem_append_right _ ?_
    show r ∈ s.send sent
    unfold send
    split_ifs
    · exact mem_append_left _ hr
    · exact hr

theorem Timely.readUnclaimed (h : Timely s) (hI : Inv s) (hg : s.host.greeted = false) (count : ℕ) :
    Timely (s.readUnclaimed count) := by
  obtain ⟨hprompts, -⟩ := hI.ungreeted hg
  unfold System.readUnclaimed
  split
  · exact h
  all_goals exact timely_of_nil hprompts h.expired

theorem step_timely (hI : Inv s) (h : Timely s) : ∀ e : Event, s.Alone e → Timely (s.step e)
  | .accept, _ => h.fewer (List.Sublist.refl _) rfl rfl (List.Subset.refl _) h.expired
  | .reported _, _ => h.fewer (List.Sublist.refl _) rfl rfl (List.Subset.refl _) h.expired
  | .askConsent client who now, ha => by
    simp only [step]
    split_ifs with hc
    · obtain ⟨q, horders, -, hserial, hasked⟩ := s.host.asked_askConsent client who s.serial now
      rw [horders]
      refine h.ask hI ((s.host.fewer_replaceAsking).asked hasked) hserial fun p hp hne => ha p ?_
      simp only [out]
      rw [if_pos hc]
      exact hasked.mem_of_ne hp hne
    · exact h
  | .askTheSeat account now, ha => by
    simp only [step]
    split_ifs with hg
    · obtain ⟨q, horders, -, hserial, hasked⟩ := s.host.asked_askTheSeat account s.serial now
      rw [horders]
      refine h.ask hI hasked hserial fun p hp hne => ha p ?_
      simp only [out]
      rw [if_pos hg]
      exact hasked.mem_of_ne hp hne
    · exact h
  | .due now, _ => h.due hI now
  | .settle, _ => by
    have hf := s.host.fewer_settle
    refine h.fewer hf.prompts hf.built rfl (fun q hq => ?_) h.expired
    show q ∈ (s.host.settle.1.inbox ++ s.up).filterMap (·.question)
    rwa [hf.inbox]
  | .readHost count, _ => by
    simp only [step]
    split_ifs with hup hg
    · exact h
    · exact h.readHost count
    · exact h.readUnclaimed hI (by simpa using hg) count
  | .readAgent, _ => by
    simp only [step]
    split
    · exact h
    · exact h.fewer (List.Sublist.refl _) rfl rfl (List.Subset.refl _) h.expired
  | .threadEnds _, _ => h.fewer (List.Sublist.refl _) rfl rfl (List.Subset.refl _) h.expired
  | .finishPrompt, _ => h.agent _ _ _
  | .disconnect _, _ => h.agent _ _ _
  | .restart, _ => timely_of_nil rfl h.expired
  | .reattach, _ => by
    simp only [step]
    split_ifs with hatt
    · exact h
    · exact timely_of_nil (hI.ungreeted (hI.away (by simpa using hatt)).2).1 h.expired

/-! ### Runs -/

theorem run_inv : ∀ (events : List Event) {s : System}, Inv s → s.Always Fresh events → Inv (s.run events)
  | [], _, h, _ => h
  | e :: events, _, h, hf => run_inv events (step_inv h e hf.1) hf.2

theorem run_timely : ∀ (events : List Event) {s : System}, Inv s → Timely s → s.Always Fresh events →
    s.Always Alone events → Timely (s.run events)
  | [], _, _, h, _, _ => h
  | e :: events, _, hI, h, hf, ha =>
    run_timely events (step_inv hI e hf.1) (step_timely hI h e ha.1) hf.2 ha.2

/-- **Every question is answered for itself.** In a run in which every
question gets a number that no question at the agent or on its way has, a
prompt that a reply resolves gets the answer to its own question. If moreover
nothing is asked while another prompt is out whose reply is not on its way,
no prompt runs into its deadline after its question was taken down for
another. -/
theorem run_ownQuestion (policy : PolicySection) (session : ℕ) (events : List Event)
    (hfresh : (start policy session).Always Fresh events) :
    ((start policy session).run events).OwnAnswers ∧
      ((start policy session).Always Alone events → ((start policy session).run events).NotTakenDown) := by
  have hI := start_inv policy session
  refine ⟨(run_inv events hI hfresh).answers, fun halone => ?_⟩
  have ht : Timely (start policy session) := timely_of_nil rfl fun e he => by cases he
  exact (run_timely events hI ht hfresh halone).expired

/-- **Questions stay in order**, and one whose number waits is its prompt's. -/
theorem run_ordered (policy : PolicySection) (session : ℕ) (events : List Event)
    (hfresh : (start policy session).Always Fresh events) :
    let s := (start policy session).run events
    Ordered s.line ∧ ∀ q ∈ s.ahead ++ s.replies, s.host.consent.waiting q.number →
      s.host.questionOf q.number = some q :=
  have h := run_inv events (start_inv policy session) hfresh
  ⟨h.ordered, h.own⟩

/-- A client is asked about. -/
def clientAsked : List Event :=
  [.reattach, .readHost 1, .accept, .askConsent 1 { user := text "ann" } 0, .readAgent]

/-- Its question is answered before somebody logs in at the machine, whose
question nobody answers. -/
def bothAsked : List Event :=
  clientAsked ++ [.threadEnds .denied, .finishPrompt, .askTheSeat (text "ann") 0, .readHost 1, .readAgent,
    .due (100 * second)]

theorem bothAsked_ownQuestion :
    ((start {} 1).run bothAsked).host.answers.length = 1 ∧ ((start {} 1).run bothAsked).expired.length = 1 ∧
      ((start {} 1).run bothAsked).OwnAnswers ∧ ((start {} 1).run bothAsked).NotTakenDown := by
  have h := run_ownQuestion {} 1 bothAsked (by decide)
  exact ⟨by decide, by decide, h.1, h.2 (by decide)⟩

/-- The client's answer is on its way, a login's question is taken down for
the next one, and two more are coming. -/
def manyAsked : List Event :=
  clientAsked ++ [.threadEnds .denied, .finishPrompt, .askTheSeat (text "ann") 0, .readAgent,
    .askTheSeat (text "bob") 0, .readAgent, .askTheSeat (text "eve") 0, .accept, .askConsent 2 { user := text "eve" } 0]

theorem run_ordered_manyAsked :
    let s := (start {} 1).run manyAsked
    (s.line.replied, s.line.dropped, s.line.inHand, s.line.coming) = ([0], [1], some 2, [3, 4]) ∧
      s.ahead.map (fun q => s.host.consent.waiting q.number) = [true, true, true] ∧ Ordered s.line ∧
      ∀ q ∈ s.ahead ++ s.replies, s.host.consent.waiting q.number → s.host.questionOf q.number = some q :=
  ⟨by decide, by decide, run_ordered {} 1 manyAsked (by decide)⟩

/-- farlandd restarts while the question is shown, and asks about its own
first client; the old question is answered before the new one is read. -/
def askedAgain : List Event :=
  clientAsked ++ [.restart, .reattach, .readHost 1, .accept, .askConsent 1 { user := text "eve" } 0,
    .threadEnds .allowed, .finishPrompt, .readHost 1]

/-- Somebody logs in at the machine while the client's question is shown. -/
def loginMeanwhile : List Event :=
  clientAsked ++ [.askTheSeat (text "ann") 0, .readAgent, .due (100 * second)]

/-- The answer about a client of before the restart lets another one in, and a
login's question makes a client's go unasked. -/
theorem stale_answer :
    (¬ ∀ (policy : PolicySection) (session : ℕ) (events : List Event),
      ((start policy session).run events).OwnAnswers) ∧
    ¬ ∀ (policy : PolicySection) (session : ℕ) (events : List Event),
      ((start policy session).run events).NotTakenDown := by
  constructor
  · intro h
    have hanswer : ¬ ((start {} 1).run askedAgain).OwnAnswers := by decide
    exact hanswer (h {} 1 askedAgain)
  · intro h
    have hdown : ¬ ((start {} 1).run loginMeanwhile).NotTakenDown := by decide
    exact hdown (h {} 1 loginMeanwhile)

end System
end Prompts
end Broker
end Farland
