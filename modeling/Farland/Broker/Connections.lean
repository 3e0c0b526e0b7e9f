/-
# Who holds the session

One session of farlandd and its agent, with a socket queue in each direction.
farlandd has written down which client it handed over last (`registry`); the
agent has the client it serves (`current`). Clients are handed over, threads
end, the agent refuses a client while the screen is locked, and farlandd
restarts: the record is then rebuilt from what the agent reports, while new
clients get numbers from 1 on.

A number alone does not tell which connection is meant: after a restart a
waiting client may get the number of the one the agent still serves, and the
end of the old one clears the record of the new. And what arrives in the same
read as the Hello stays in the inbox until the agent says something more.

`Conn.serial`, `Host.record` and `Host.cleared` are history variables.

Key theorems: `step_inv`, `run_agreed`, `unread_after_greeting`.
-/
import Farland.Daemon.Registry
import Farland.Lib.Custody

namespace Farland
namespace Broker
namespace Connections

open Daemon Custody List Option SessionRegistry

/-! ### Messages -/

/-- A client that was accepted: its number, and which of all clients it is. -/
structure Conn where
  number : ℕ
  serial : ℕ
  deriving DecidableEq

/-- The number a message has for a connection, 0 for none. -/
def numberOf (client : Option Conn) : ℕ := (client.map (·.number)).getD 0

/-- What the agent sends. -/
inductive Report where
  | hello
  | disconnect (client : Conn)
  | stats (client : Option Conn) (idleSeconds : ℕ)
  deriving DecidableEq

/-- What farlandd sends. -/
inductive Order where
  | settings
  | newConnection (client : Conn)
  | disconnect (connection : ℕ)
  deriving DecidableEq

/-- What a report says about the session. -/
def Report.notice : Report → Notice Conn
  | .hello => .serves none
  | .disconnect client => .ended client
  | .stats client _ => .serves client

/-- The client that an order brings. -/
def Order.brings : Order → List Conn
  | .newConnection client => [client]
  | .settings | .disconnect _ => []

/-! ### farlandd -/

structure Host where
  /-- The session's id. -/
  id : ℕ
  registry : SessionRegistry
  nextConnection : ℕ := 1
  /-- Accepted, and not yet with an agent. -/
  clients : List Conn := []
  /-- The client that waits for the agent's Hello. -/
  waiting : Option Conn := none
  /-- The agent has said Hello. -/
  greeted : Bool := false
  inbox : List Report := []
  /-- The client whose number the registry has. -/
  record : Option Conn := none
  /-- Whose Disconnect cleared whose record. -/
  cleared : List (Conn × Option Conn) := []
  deriving DecidableEq

namespace Host

/-- A farlandd that has just read the session from its table. -/
def restored (policy : PolicySection) (home : SessionRegistry.Restored) (cleared : List (Conn × Option Conn)) :
    Host where
  id := home.id
  registry := start policy [home]
  cleared

variable (h : Host)

/-- The registry's connection of the session. -/
def known : Option ℕ := (h.registry.find h.id).map (·.connection)

/-- `accept_client`: the client gets the next number. -/
def acceptClient (serial : ℕ) : Host :=
  { h with
    clients := ⟨h.nextConnection, serial⟩ :: h.clients
    nextConnection := (h.nextConnection + 1) % 2 ^ 64 }

/-- Keeps later connections from being given a number that an agent reported. -/
def keepFrom (number : ℕ) : Host :=
  { h with nextConnection := max h.nextConnection ((number + 1) % 2 ^ 64) }

def handOver (client : Conn) : Host × List Order :=
  let replaced := (h.registry.connect h.id client.number).2
  ({ h with registry := (h.registry.connect h.id client.number).1, record := some client },
    (if replaced = 0 then [] else [.disconnect replaced]) ++ [.newConnection client])

/-- The agent has said Hello; what came with it stays in the inbox. -/
def claim (rest : List Report) : Host :=
  { h with registry := h.registry.setRunning h.id, greeted := true, inbox := rest }

/-- The agent says Hello. The client that waited gets the session, unless
somebody at the machine is asked first. -/
def greet (rest : List Report) : Host × List Order :=
  match h.waiting with
  | none => (h.claim rest, [.settings])
  | some client =>
    let claimed := { h.claim rest with waiting := none }
    if (claimed.registry.find claimed.id).any (·.attached) then
      ({ claimed with clients := client :: claimed.clients }, [.settings])
    else ((claimed.handOver client).1, .settings :: (claimed.handOver client).2)

/-- After a restart the agent still has its client, which this farlandd never
handed over. -/
def adopt (client : Option Conn) : Host :=
  if numberOf client = 0 then h
  else
    { h.keepFrom (numberOf client) with
      registry := h.registry.adoptConnection h.id (numberOf client)
      record := if h.known = some 0 then client else h.record }

/-- One message in `read_agent`. -/
def receive (now : Time) : Report → Host
  | .hello => { h with registry := h.registry.remove h.id, record := none }  -- the link refuses it: the session ends
  | .disconnect client =>
    let after := { h with registry := h.registry.disconnected h.id client.number now }
    if h.known ≠ some 0 ∧ after.known = some 0 then
      { after with record := none, cleared := h.cleared ++ [(client, h.record)] }
    else after
  | .stats client idleSeconds =>
    { h.adopt client with registry := (h.adopt client).registry.updateIdle h.id (numberOf client) idleSeconds }

/-- `read_agent`: all that is there is read. -/
def readAgent (now : Time) (read : List Report) : Host :=
  (h.inbox ++ read).foldl (fun h r => h.receive now r) { h with inbox := [] }

end Host

/-! ### The agent -/

/-- A connection and its thread. -/
structure Connection where
  client : Conn
  stop : Bool := false
  finished : Bool := false
  deriving DecidableEq

/-- `attached`: its socket leads to the farlandd that runs now. -/
structure Agent where
  current : Option Connection := none
  attached : Bool := false
  deriving DecidableEq

namespace Agent

variable (a : Agent)

/-- Whom it serves. -/
def client : Option Conn := a.current.map (·.client)

def joinConnection : Agent × List Report :=
  match a.current with
  | none => (a, [])
  | some c => ({ a with current := none }, [.disconnect c.client])

def sendStats (idleSeconds : ℕ) : Report :=
  match a.current with
  | none => .stats none 0
  | some c => .stats (some c.client) idleSeconds

/-- A newer client takes over. While the desktop starts, `waits` Stats go out;
it does not start while the screen at the machine is locked. -/
def onNewConnection (client : Conn) (waits : ℕ) (starts : Bool) : Agent × List Report :=
  let joined := a.joinConnection.1
  let sent := a.joinConnection.2 ++ List.replicate waits (joined.sendStats 0)
  if starts then ({ joined with current := some { client } }, sent)
  else (joined, sent ++ [.disconnect client])

def stopConnection : Agent := { a with current := a.current.map fun c => { c with stop := true } }

def receive (waits : ℕ) (starts : Bool) : Order → Agent × List Report
  | .settings => (a, [])
  | .newConnection client => a.onNewConnection client waits starts
  | .disconnect connection =>
    (if a.current.any (·.client.number == connection) then a.stopConnection else a, [])

end Agent

/-! ### Both -/

/-- The session as farlandd wrote it down; ids are given out from 1 on. -/
structure Stored extends SessionRegistry.Restored where
  idNonzero : id ≠ 0
  deriving DecidableEq

structure System where
  policy : PolicySection := {}
  home : Stored
  host : Host
  agent : Agent := {}
  /-- From the agent to farlandd. -/
  up : List Report := []
  /-- From farlandd to the agent. -/
  down : List Order := []
  serial : ℕ := 0
  deriving DecidableEq

namespace System

/-- The session is in farlandd's table, and its agent has not said Hello. -/
def start (policy : PolicySection) (home : Stored) : System where
  policy
  home
  host := Host.restored policy home.toRestored []

inductive Event where
  /-- A client is accepted, for this session or another. -/
  | accept
  /-- The agent of another session reports a connection. -/
  | elsewhere (number : ℕ)
  /-- A client has the right to the session: it waits for the agent, or it is
  handed over. -/
  | deliver (client : Conn)
  /-- The idle policy ends the connection. -/
  | disconnectIdle
  /-- farlandd reads so many messages. -/
  | readHost (count : ℕ) (now : Time)
  /-- The agent reads a message. -/
  | readAgent (waits : ℕ) (starts : Bool)
  /-- The connection's thread ends. -/
  | threadEnds
  /-- The agent joins a thread that has ended. -/
  | join
  | stats (idleSeconds : ℕ)
  | restart (now : Time)
  | reattach (idleSeconds : ℕ)
  deriving DecidableEq

variable (s : System)

/-- What the agent sends reaches farlandd, or nobody. -/
def send (sent : List Report) : List Report := if s.agent.attached then s.up ++ sent else s.up

/-- `read_unclaimed` on what was read of a new agent socket. -/
def readUnclaimed (count : ℕ) : System :=
  match s.up.take count with
  | [] => s
  | .hello :: rest =>
    { s with host := (s.host.greet rest).1, up := s.up.drop count, down := s.down ++ (s.host.greet rest).2 }
  | .disconnect _ :: _ | .stats _ _ :: _ =>  -- no Hello: the socket is closed
    { s with agent := { s.agent with attached := false }, up := [] }

def step : Event → System
  | .accept => { s with host := s.host.acceptClient s.serial, serial := s.serial + 1 }
  | .elsewhere number => { s with host := s.host.keepFrom number }
  | .deliver client =>
    if client ∉ s.host.clients then s
    else
      let h := { s.host with clients := s.host.clients.erase client }
      if h.greeted then { s with host := (h.handOver client).1, down := s.down ++ (h.handOver client).2 }
      else { s with host := { h with waiting := some client } }
  | .disconnectIdle =>
    match s.host.known with
    | some (number + 1) => if s.host.greeted then { s with down := s.down ++ [.disconnect (number + 1)] } else s
    | _ => s
  | .readHost count now =>
    if s.up = [] then s
    else if s.host.greeted then
      { s with host := s.host.readAgent now (s.up.take count), up := s.up.drop count }
    else s.readUnclaimed count
  | .readAgent waits starts =>
    match s.down with
    | [] => s
    | order :: rest =>
      { s with
        agent := (s.agent.receive waits starts order).1
        up := s.send (s.agent.receive waits starts order).2
        down := rest }
  | .threadEnds =>
    { s with agent := { s.agent with current := s.agent.current.map fun c => { c with finished := true } } }
  | .join =>
    if s.agent.current.any (·.finished) then
      { s with agent := s.agent.joinConnection.1, up := s.send s.agent.joinConnection.2 }
    else s
  | .stats idleSeconds => { s with up := s.send [s.agent.sendStats idleSeconds] }
  | .restart now =>
    { s with
      host := Host.restored s.policy { s.home.toRestored with now } s.host.cleared
      agent := { s.agent with attached := false }
      up := [] }
  | .reattach idleSeconds =>
    if s.agent.attached then s
    else
      { s with
        agent := { s.agent with attached := true }
        up := .hello :: (if s.agent.current.isSome then [s.agent.sendStats idleSeconds] else [])
        down := [] }

def run (events : List Event) : System := events.foldl step s

/-! ### What is claimed -/

/-- No socket holds unread bytes, and no ended thread is unjoined. -/
def Quiescent : Prop :=
  s.up = [] ∧ s.down = [] ∧ s.agent.attached = true ∧ s.agent.current.any (·.finished) = false

/-- The registry's connection is the one the agent serves, 0 for none. -/
def Agreed : Prop :=
  s.host.known = some (numberOf s.agent.client) ∧ (s.host.known = some 0 ↔ s.agent.client = none)

/-- A Disconnect cleared the record of its own connection only. -/
def OwnReports : Prop := ∀ e ∈ s.host.cleared, e.2 = some e.1

instance (s : System) : Decidable s.Quiescent := inferInstanceAs (Decidable (_ ∧ _ ∧ _ ∧ _))
instance (s : System) : Decidable s.Agreed := inferInstanceAs (Decidable (_ ∧ (_ ↔ _)))
instance (s : System) : Decidable s.OwnReports := inferInstanceAs (Decidable (∀ e ∈ _, _))

/-! ### When it holds -/

/-- The connections of the agent and of the messages that are on their way. -/
def inFlight : List Conn :=
  s.agent.client.toList ++ s.down.flatMap (·.brings) ++ (s.host.inbox ++ s.up).flatMap (·.notice.names)

/-- The client that a step hands over. -/
def handedOver : Event → Option Conn
  | .deliver client => if client ∈ s.host.clients ∧ s.host.greeted then some client else none
  | .readHost count _ =>
    if s.host.greeted = false ∧ (s.up.take count).head? = some .hello ∧
        (s.host.registry.find s.host.id).any (·.attached) = false then s.host.waiting
    else none
  | _ => none

/-- A client that is handed over has a number, which is nobody else's. -/
def Fresh (e : Event) : Prop :=
  ∀ client ∈ s.handedOver e, client.number ≠ 0 ∧ ∀ other ∈ s.inFlight, other.number ≠ client.number

instance (s : System) (e : Event) : Decidable (s.Fresh e) := inferInstanceAs (Decidable (∀ _ ∈ _, _ ∧ ∀ _ ∈ _, _))

/-- Every step of a run is `Fresh`. -/
def AllFresh (s : System) : List Event → Prop
  | [] => True
  | e :: events => s.Fresh e ∧ AllFresh (s.step e) events

instance AllFresh.decidable : ∀ (s : System) (events : List Event), Decidable (s.AllFresh events)
  | _, [] => inferInstanceAs (Decidable True)
  | s, e :: events => @instDecidableAnd _ _ _ (AllFresh.decidable (s.step e) events)

end System

/-! ### The registry's connection -/

section
variable {r : SessionRegistry} {id k : ℕ}

/-- What a change of the session makes of its connection. -/
theorem connection_update {f : Session → Session} {g : ℕ → ℕ} (hid : ∀ s, (f s).id = s.id)
    (hg : ∀ s, (f s).connection = g s.connection) (hk : (r.find id).map (·.connection) = some k) :
    ((r.update id f).find id).map (·.connection) = some (g k) := by
  obtain ⟨s, hs, rfl⟩ := map_eq_some_iff.mp hk
  rw [find_update hid, hs]
  exact congrArg some (hg s)

section

variable (hk : (r.find id).map (·.connection) = some k)
include hk

theorem connection_connect (number : ℕ) :
    (((r.connect id number).1).find id).map (·.connection) = some number :=
  connection_update (g := fun _ => number) (fun _ => rfl) (fun _ => rfl) hk

theorem connection_disconnected (number : ℕ) (now : Time) :
    ((r.disconnected id number now).find id).map (·.connection) = some (if k ≠ number ∨ number = 0 then k else 0) :=
  connection_update (g := fun k => if k ≠ number ∨ number = 0 then k else 0) (fun s => by split_ifs <;> rfl)
    (fun s => by split_ifs <;> rfl) hk

theorem connection_adoptConnection (number : ℕ) :
    ((r.adoptConnection id number).find id).map (·.connection) = some (if number = 0 ∨ k ≠ 0 then k else number) :=
  connection_update (g := fun k => if number = 0 ∨ k ≠ 0 then k else number) (fun s => by split_ifs <;> rfl)
    (fun s => by split_ifs <;> rfl) hk

theorem connection_updateIdle (number idleSeconds : ℕ) :
    ((r.updateIdle id number idleSeconds).find id).map (·.connection) = some k :=
  connection_update (g := fun k => k) (fun s => by split_ifs <;> rfl) (fun s => by split_ifs <;> rfl) hk

theorem connection_setRunning :
    ((r.setRunning id).find id).map (·.connection) = some k :=
  connection_update (g := fun k => k) (fun s => by split_ifs <;> rfl) (fun s => by split_ifs <;> rfl) hk

end

/-- A session that was read from the table has no connection. -/
theorem connection_start (policy : PolicySection) {home : SessionRegistry.Restored} (hid : home.id ≠ 0) :
    ((start policy [home]).find home.id).map (·.connection) = some 0 := by
  simp [start, restore, find, hid]

end

/-! ### Numbers that tell connections apart -/

/-- Nonzero numbers, each of one connection. -/
def Apart (l : List Conn) : Prop := ∀ x ∈ l, x.number ≠ 0 ∧ ∀ y ∈ l, x.number = y.number → x = y

theorem Apart.mono {l l' : List Conn} (h : Apart l) (hsub : l' ⊆ l) : Apart l' :=
  fun x hx => ⟨(h x (hsub hx)).1, fun y hy => (h x (hsub hx)).2 y (hsub hy)⟩

theorem Apart.cons {l : List Conn} (h : Apart l) {c : Conn} (hc : c.number ≠ 0)
    (hnew : ∀ x ∈ l, x.number ≠ c.number) : Apart (c :: l) := by
  intro x hx
  rcases mem_cons.mp hx with rfl | hx
  · refine ⟨hc, fun y hy he => ?_⟩
    rcases mem_cons.mp hy with rfl | hy
    · rfl
    · exact absurd he.symm (hnew y hy)
  · refine ⟨(h x hx).1, fun y hy he => ?_⟩
    rcases mem_cons.mp hy with hy | hy
    · exact absurd (hy ▸ he) (hnew x hx)
    · exact (h x hx).2 y hy he

/-! ### Reading the agent -/

namespace Host

/-- What reading some notices does to the record. -/
structure Follows (h h' : Host) (notices : List (Notice Conn)) : Prop where
  id : h'.id = h.id
  greeted : h'.greeted = h.greeted
  inbox : h'.inbox = h.inbox
  record : h'.record = notices.foldl follow h.record
  known : h'.known = some (numberOf h'.record)
  own : (∀ e ∈ h.cleared, e.2 = some e.1) → ∀ e ∈ h'.cleared, e.2 = some e.1

variable {h : Host}

section

variable (hk : h.known = some (numberOf h.record))
include hk

theorem receive_disconnect (now : Time) {client : Conn}
    (ha : Apart (h.record.toList ++ [client])) : Follows h (h.receive now (.disconnect client)) [.ended client] := by
  have hd := connection_disconnected hk client.number now
  cases hr : h.record with
  | none =>
    rw [hr] at hk
    have hif : ¬ (h.known ≠ some 0 ∧
        ({ h with registry := h.registry.disconnected h.id client.number now } : Host).known = some 0) :=
      fun hc => hc.1 hk
    simp only [receive]
    rw [if_neg hif]
    refine ⟨rfl, rfl, rfl, by simp [hr, follow], ?_, fun ho => ho⟩
    refine hd.trans ?_
    simp [hr, numberOf]
  | some c =>
    have hc : c.number ≠ 0 := (ha c (by simp [hr])).1
    have hkc : h.known = some c.number := by rw [hk, hr]; rfl
    simp only [hr, numberOf] at hd
    by_cases heq : c = client
    · subst heq
      rw [if_neg (by simp [hc])] at hd
      have hif : h.known ≠ some 0 ∧
          ({ h with registry := h.registry.disconnected h.id c.number now } : Host).known = some 0 :=
        ⟨by simp [hkc, hc], hd⟩
      simp only [receive]
      rw [if_pos hif]
      refine ⟨rfl, rfl, rfl, by simp [hr], hd, fun ho e he => ?_⟩
      rcases mem_append.mp he with he | he
      · exact ho e he
      · rw [mem_singleton.mp he]
        exact hr
    · have hne : c.number ≠ client.number := fun he => heq ((ha c (by simp [hr])).2 client (by simp) he)
      rw [if_pos (.inl hne)] at hd
      have hif : ¬ (h.known ≠ some 0 ∧
          ({ h with registry := h.registry.disconnected h.id client.number now } : Host).known = some 0) :=
        fun hc0 => hc (Option.some.inj (hd.symm.trans hc0.2))
      simp only [receive]
      rw [if_neg hif]
      refine ⟨rfl, rfl, rfl, by simp [hr, follow, heq], ?_, fun ho => ho⟩
      exact hd.trans (by simp [hr, numberOf])

theorem adopt_follows {client : Option Conn}
    (ha : Apart (h.record.toList ++ client.toList)) : Follows h (h.adopt client) [.serves client] := by
  cases client with
  | none => exact ⟨rfl, rfl, rfl, by simp [adopt, numberOf], hk, fun ho => ho⟩
  | some c =>
    have hz : numberOf (some c) ≠ 0 := (ha c (by simp)).1
    have hd := connection_adoptConnection hk (numberOf (some c))
    unfold adopt
    rw [if_neg hz]
    cases hr : h.record with
    | none =>
      rw [hr] at hk hd
      rw [if_pos (show h.known = some 0 from hk)]
      exact ⟨rfl, rfl, rfl, by simp [hr, follow], hd.trans (by rw [if_neg (not_or.mpr ⟨hz, by simp [numberOf]⟩)]), fun ho => ho⟩
    | some x =>
      have hx : numberOf (some x) ≠ 0 := (ha x (by simp [hr])).1
      rw [hr] at hk hd
      have hif : ¬ h.known = some 0 := by simp [hk, hx]
      rw [if_neg hif]
      exact ⟨rfl, rfl, rfl, by simp [hr, follow], hd.trans (by simp [hx]), fun ho => ho⟩

theorem receive_stats (now : Time) {client : Option Conn} (idleSeconds : ℕ)
    (ha : Apart (h.record.toList ++ client.toList)) :
    Follows h (h.receive now (.stats client idleSeconds)) [.serves client] := by
  have hf := adopt_follows hk ha
  refine ⟨hf.id, hf.greeted, hf.inbox, hf.record, ?_, hf.own⟩
  have hknown := hf.known
  simp only [known, hf.id] at hknown
  simp only [receive, hf.id]
  exact connection_updateIdle hknown _ _

/-- A message of a link that has greeted. -/
theorem receive_follows (now : Time) : ∀ {r : Report}, r ≠ .hello →
    Apart (h.record.toList ++ r.notice.names) → Follows h (h.receive now r) [r.notice]
  | .hello, hr, _ => absurd rfl hr
  | .disconnect _, _, ha => receive_disconnect hk now ha
  | .stats _ idleSeconds, _, ha => receive_stats hk now idleSeconds ha

end

/-- All messages of a read. -/
theorem foldl_receive_follows (now : Time) : ∀ {rs : List Report} {h : Host}, h.known = some (numberOf h.record) →
    .hello ∉ rs → Apart (h.record.toList ++ rs.flatMap (·.notice.names)) →
    Follows h (rs.foldl (fun h r => h.receive now r) h) (rs.map (·.notice))
  | [], h, hk, _, _ => ⟨rfl, rfl, rfl, rfl, hk, fun ho => ho⟩
  | r :: rs, h, hk, hr, ha => by
    have hfirst : Follows h (h.receive now r) [r.notice] := by
      refine receive_follows hk now (fun he => hr (he ▸ mem_cons_self)) (ha.mono fun x hx => ?_)
      rw [flatMap_cons, ← append_assoc]
      exact mem_append_left _ hx
    have hrest : Apart ((h.receive now r).record.toList ++ rs.flatMap (·.notice.names)) := by
      refine ha.mono fun x hx => ?_
      rcases mem_append.mp hx with hx | hx
      · rw [hfirst.record, mem_toList] at hx
        rcases follow_mem hx with hx | hx
        · exact mem_append_left _ (mem_toList.mpr hx)
        · exact mem_append_right _ (mem_append_left _ hx)
      · exact mem_append_right _ (mem_append_right _ hx)
    have h2 : Follows (h.receive now r) (rs.foldl (fun h r => h.receive now r) (h.receive now r)) (rs.map (·.notice)) :=
      foldl_receive_follows now hfirst.known (fun hm => hr (mem_cons_of_mem _ hm)) hrest
    refine ⟨h2.id.trans hfirst.id, h2.greeted.trans hfirst.greeted, h2.inbox.trans hfirst.inbox, ?_, h2.known,
      fun ho => h2.own (hfirst.own ho)⟩
    rw [foldl_cons, h2.record, hfirst.record]
    rfl

/-! ### Handing over -/

theorem handOver_known (hk : h.known = some (numberOf h.record)) (client : Conn) :
    (h.handOver client).1.known = some client.number := connection_connect hk client.number

/-- The orders of a hand-over bring one client. -/
theorem handOver_brings (h : Host) (client : Conn) : (h.handOver client).2.flatMap (·.brings) = [client] := by
  simp only [handOver]
  split_ifs <;> rfl

end Host

/-! ### The agent's steps -/

namespace Agent

variable {a : Agent} {record : Option Conn} {grants : List Conn} {notices : List (Notice Conn)}

@[simp] theorem joinConnection_client (a : Agent) : a.joinConnection.1.client = none := by
  rcases a with ⟨_ | c, attached⟩ <;> rfl

@[simp] theorem joinConnection_attached (a : Agent) : a.joinConnection.1.attached = a.attached := by
  rcases a with ⟨_ | c, attached⟩ <;> rfl

@[simp] theorem stopConnection_client (a : Agent) : a.stopConnection.client = a.client := by
  rcases a with ⟨_ | c, attached⟩ <;> rfl

@[simp] theorem sendStats_notice (a : Agent) (idleSeconds : ℕ) :
    (a.sendStats idleSeconds).notice = .serves a.client := by
  rcases a with ⟨_ | c, attached⟩ <;> rfl

theorem sendStats_ne_hello (a : Agent) (idleSeconds : ℕ) : a.sendStats idleSeconds ≠ .hello := by
  rcases a with ⟨_ | c, attached⟩ <;> simp [sendStats]

theorem joinConnection_agrees (h : Agrees ⟨record, a.client, grants, notices⟩) :
    Agrees ⟨record, none, grants, notices ++ a.joinConnection.2.map (·.notice)⟩ := by
  rcases a with ⟨_ | c, attached⟩
  · simpa [joinConnection, client] using h
  · exact h.leave rfl

/-- A client that the agent turns to, once the one before has left. -/
theorem onNewConnection_agrees {c : Conn} (h : Agrees ⟨record, a.client, c :: grants, notices⟩) (waits : ℕ)
    (starts : Bool) :
    Agrees ⟨record, (a.onNewConnection c waits starts).1.client, grants,
      notices ++ (a.onNewConnection c waits starts).2.map (·.notice)⟩ := by
  have htold := (joinConnection_agrees h).tellAll waits
  simp only [append_assoc] at htold
  unfold onNewConnection
  cases starts with
  | true =>
    rw [if_pos rfl, map_append, map_replicate, sendStats_notice, joinConnection_client]
    exact htold.accept rfl
  | false =>
    rw [if_neg (by simp), map_append, map_append, map_replicate, sendStats_notice,
      joinConnection_client, ← append_assoc]
    exact htold.refuse rfl rfl

theorem joinConnection_names (a : Agent) : a.joinConnection.2.flatMap (·.notice.names) = a.client.toList := by
  rcases a with ⟨_ | c, attached⟩ <;> rfl

/-- What an order of farlandd makes the agent say is about its client, or the
one that the order brings. -/
theorem receive_names (a : Agent) (waits : ℕ) (starts : Bool) (order : Order) :
    (a.receive waits starts order).1.client.toList ++
      (a.receive waits starts order).2.flatMap (·.notice.names) ⊆ a.client.toList ++ order.brings := by
  cases order with
  | settings => simp [receive]
  | disconnect connection =>
    simp only [receive]
    split_ifs <;> simp
  | newConnection c =>
    have hwaits : (List.replicate waits (a.joinConnection.1.sendStats 0)).flatMap (·.notice.names) = [] := by
      refine flatMap_eq_nil_iff.mpr fun r hr => ?_
      rw [eq_of_mem_replicate hr, sendStats_notice, joinConnection_client]
      rfl
    have hsent : (a.joinConnection.2 ++ List.replicate waits (a.joinConnection.1.sendStats 0)).flatMap
        (·.notice.names) = a.client.toList := by
      rw [flatMap_append, hwaits, append_nil, joinConnection_names]
    simp only [receive, onNewConnection]
    cases starts with
    | true =>
      rw [if_pos rfl, hsent]
      exact (perm_append_comm).subset
    | false =>
      rw [if_neg (by simp), joinConnection_client, flatMap_append, hsent]
      exact List.Subset.refl _

theorem receive_hello (a : Agent) (waits : ℕ) (starts : Bool) (order : Order) :
    .hello ∉ (a.receive waits starts order).2 := by
  have hjoin : .hello ∉ a.joinConnection.2 := by rcases a with ⟨_ | c, attached⟩ <;> simp [joinConnection]
  have hwaits : .hello ∉ List.replicate waits (a.joinConnection.1.sendStats 0) :=
    fun hm => sendStats_ne_hello _ _ (eq_of_mem_replicate hm).symm
  cases order with
  | settings | disconnect connection => simp [receive]
  | newConnection c =>
    simp only [receive, onNewConnection]
    cases starts <;> simp [hjoin, hwaits]

theorem receive_attached (a : Agent) (waits : ℕ) (starts : Bool) (order : Order) :
    (a.receive waits starts order).1.attached = a.attached := by
  cases order with
  | settings => rfl
  | disconnect connection =>
    simp only [receive]
    split_ifs <;> rfl
  | newConnection c =>
    simp only [receive, onNewConnection]
    cases starts <;> simp

/-- An order of farlandd. -/
theorem receive_agrees {order : Order} (h : Agrees ⟨record, a.client, order.brings ++ grants, notices⟩) (waits : ℕ)
    (starts : Bool) :
    Agrees ⟨record, (a.receive waits starts order).1.client, grants,
      notices ++ (a.receive waits starts order).2.map (·.notice)⟩ := by
  cases order with
  | settings =>
    simp only [receive, map_nil, append_nil]
    exact h
  | disconnect connection =>
    simp only [receive, map_nil, append_nil]
    split_ifs
    · rwa [stopConnection_client]
    · exact h
  | newConnection c => exact onNewConnection_agrees h waits starts

end Agent

/-! ### Both together -/

namespace System

/-- The session as the two have it. -/
def link (s : System) : Link Conn where
  record := s.host.record
  current := s.agent.client
  grants := s.down.flatMap (·.brings)
  notices := (s.host.inbox ++ s.up).map (·.notice)

structure Inv (s : System) : Prop where
  id : s.host.id = s.home.id
  known : s.host.known = some (numberOf s.host.record)
  apart : Apart (s.host.record.toList ++ s.inFlight)
  /-- Nothing of this farlandd's goes to an agent that is not there. -/
  away : s.agent.attached = false → s.up = [] ∧ s.host.greeted = false
  ungreeted : s.host.greeted = false → s.host.record = none ∧ s.host.inbox = []
  /-- A new socket begins with the Hello. -/
  hello : s.agent.attached = true → s.host.greeted = false →
    s.down = [] ∧ ∃ rest, s.up = .hello :: rest ∧ .hello ∉ rest
  noHello : s.host.greeted = true → .hello ∉ s.host.inbox ++ s.up
  agrees : s.agent.attached = true → Agrees s.link
  own : s.OwnReports

variable {s : System}

/-- What is claimed of a quiet state. -/
theorem Inv.agreed (h : Inv s) (hq : s.Quiescent) (hinbox : s.host.inbox = []) : s.Agreed := by
  obtain ⟨hup, hdown, hatt, -⟩ := hq
  have hrecord : s.host.record = s.agent.client :=
    (h.agrees hatt).settled (by simp [link, hdown]) (by simp [link, hinbox, hup])
  refine ⟨hrecord ▸ h.known, ?_⟩
  rw [h.known, hrecord]
  cases hc : s.agent.client with
  | none => simp [numberOf]
  | some c =>
    have hz := (h.apart c (by simp [inFlight, hc])).1
    simp [numberOf, hz]

theorem start_inv (policy : PolicySection) (home : Stored) : Inv (start policy home) where
  id := rfl
  known := connection_start policy home.idNonzero
  apart x hx := by simp [start, Host.restored, inFlight, Agent.client] at hx
  away _ := ⟨rfl, rfl⟩
  ungreeted _ := ⟨rfl, rfl⟩
  hello hatt := by cases hatt
  noHello hg := by cases hg
  agrees hatt := by cases hatt
  own e he := by cases he

section

variable (h : Inv s)
include h

/-- A change of farlandd's that has nothing to do with the session's record. -/
theorem Inv.host (h' : Host) (serial : ℕ) (hid : h'.id = s.host.id) (hregistry : h'.registry = s.host.registry)
    (hgreeted : h'.greeted = s.host.greeted) (hinbox : h'.inbox = s.host.inbox) (hrecord : h'.record = s.host.record)
    (hcleared : h'.cleared = s.host.cleared) : Inv { s with host := h', serial } where
  id := hid.trans h.id
  known := by
    show (h'.registry.find h'.id).map (·.connection) = some (numberOf h'.record)
    rw [hid, hregistry, hrecord]
    exact h.known
  apart := by
    show Apart (h'.record.toList ++ (s.agent.client.toList ++ s.down.flatMap (·.brings) ++
      (h'.inbox ++ s.up).flatMap (·.notice.names)))
    rw [hrecord, hinbox]
    exact h.apart
  away hatt := hgreeted ▸ h.away hatt
  ungreeted hg := by
    show h'.record = none ∧ h'.inbox = []
    rw [hrecord, hinbox]
    exact h.ungreeted (hgreeted ▸ hg)
  hello hatt hg := h.hello hatt (hgreeted ▸ hg)
  noHello hg := by
    show _ ∉ h'.inbox ++ s.up
    rw [hinbox]
    exact h.noHello (hgreeted ▸ hg)
  agrees hatt := by
    show Agrees ⟨h'.record, s.agent.client, s.down.flatMap (·.brings), (h'.inbox ++ s.up).map (·.notice)⟩
    rw [hrecord, hinbox]
    exact h.agrees hatt
  own e he := h.own e (hcleared ▸ he)

/-- A step of the agent: what it says, and what it has read. -/
theorem Inv.agent {a : Agent} {sent : List Report} {down : List Order}
    (hatt : a.attached = s.agent.attached) (hdown : s.down = [] → down = []) (hhello : .hello ∉ sent)
    (hnames : a.client.toList ++ down.flatMap (·.brings) ++ sent.flatMap (·.notice.names) ⊆
      s.agent.client.toList ++ s.down.flatMap (·.brings))
    (hagrees : Agrees s.link → Agrees ⟨s.host.record, a.client, down.flatMap (·.brings),
      s.link.notices ++ sent.map (·.notice)⟩) :
    Inv { s with agent := a, up := s.send sent, down } := by
  have hsend : s.agent.attached = true → s.send sent = s.up ++ sent := fun ht => if_pos ht
  have hsub : ∀ x ∈ (s.send sent).flatMap (·.notice.names), x ∈ (s.up ++ sent).flatMap (·.notice.names) := by
    intro x hx
    unfold send at hx
    split_ifs at hx
    · exact hx
    · rw [flatMap_append]
      exact mem_append_left _ hx
  refine ⟨h.id, h.known, h.apart.mono fun x hx => ?_, fun hf => ?_, h.ungreeted, fun ht hg => ?_,
    fun hg => ?_, fun ht => ?_, h.own⟩
  · simp only [inFlight, flatMap_append, mem_append] at hx hsub hnames ⊢
    rcases hx with hx | (hx | hx) | hx | hx
    · exact .inl hx
    · rcases mem_append.mp (hnames (mem_append_left _ (mem_append_left _ hx))) with h1 | h1
      · exact .inr (.inl (.inl h1))
      · exact .inr (.inl (.inr h1))
    · rcases mem_append.mp (hnames (mem_append_left _ (mem_append_right _ hx))) with h1 | h1
      · exact .inr (.inl (.inl h1))
      · exact .inr (.inl (.inr h1))
    · exact .inr (.inr (.inl hx))
    · rcases hsub x hx with h1 | h1
      · exact .inr (.inr (.inr h1))
      · rcases mem_append.mp (hnames (mem_append_right _ h1)) with h1 | h1
        · exact .inr (.inl (.inl h1))
        · exact .inr (.inl (.inr h1))
  · have hf' : s.agent.attached = false := hatt ▸ hf
    refine ⟨?_, (h.away hf').2⟩
    show s.send sent = []
    rw [send, hf']
    exact (h.away hf').1
  · have ht' : s.agent.attached = true := hatt ▸ ht
    obtain ⟨hd, rest, hup, hrest⟩ := h.hello ht' hg
    refine ⟨hdown hd, rest ++ sent, ?_, fun hm => ?_⟩
    · show s.send sent = _
      rw [hsend ht', hup, cons_append]
    · rcases mem_append.mp hm with hm | hm
      · exact hrest hm
      · exact hhello hm
  · have ht' : s.agent.attached = true := by
      by_contra hf
      rw [(h.away (by simpa using hf)).2] at hg
      cases hg
    show _ ∉ s.host.inbox ++ s.send sent
    rw [hsend ht', ← append_assoc]
    intro hm
    rcases mem_append.mp hm with hm | hm
    · exact h.noHello hg hm
    · exact hhello hm
  · have ht' : s.agent.attached = true := hatt ▸ ht
    show Agrees ⟨s.host.record, a.client, down.flatMap (·.brings), (s.host.inbox ++ s.send sent).map (·.notice)⟩
    rw [hsend ht', ← append_assoc, map_append]
    exact hagrees (h.agrees ht')

theorem Inv.attached (hg : s.host.greeted = true) : s.agent.attached = true := by
  by_contra hf
  rw [(h.away (by simpa using hf)).2] at hg
  cases hg

/-- Orders that bring nobody. -/
theorem Inv.order (hg : s.host.greeted = true) (orders : List Order)
    (ho : orders.flatMap (·.brings) = []) : Inv { s with down := s.down ++ orders } := by
  have hbrings : (s.down ++ orders).flatMap (·.brings) = s.down.flatMap (·.brings) := by
    rw [flatMap_append, ho, append_nil]
  refine ⟨h.id, h.known, ?_, h.away, h.ungreeted, fun _ hf => ?_, h.noHello, fun ht => ?_, h.own⟩
  · simp only [inFlight, hbrings]
    exact h.apart
  · rw [hg] at hf
    cases hf
  · simp only [link, hbrings]
    exact h.agrees ht

/-- A client with a number of its own is handed over. -/
theorem Inv.handOver (hg : s.host.greeted = true) {client : Conn} (hz : client.number ≠ 0)
    (hnew : ∀ other ∈ s.inFlight, other.number ≠ client.number) {orders : List Order}
    (ho : orders.flatMap (·.brings) = [client]) :
    Inv { s with host := (s.host.handOver client).1, down := s.down ++ orders } := by
  have hbrings : (s.down ++ orders).flatMap (·.brings) = s.down.flatMap (·.brings) ++ [client] := by
    rw [flatMap_append, ho]
  have hnot : client ∉ s.inFlight := fun hm => hnew client hm rfl
  simp only [inFlight, mem_append, not_or, mem_flatMap, not_exists, not_and] at hnot
  have hapart : Apart s.inFlight := h.apart.mono (subset_append_right _ _)
  refine ⟨h.id, Host.handOver_known h.known client, ?_, h.away, fun hf => ?_, fun _ hf => ?_, h.noHello,
    fun ht => ?_, h.own⟩
  · refine (hapart.cons hz hnew).mono fun x hx => ?_
    simp only [inFlight, hbrings, Host.handOver, toList_some, mem_append, mem_cons, not_mem_nil, or_false] at hx ⊢
    rcases hx with hx | (hx | hx | hx) | hx
    · exact .inl hx
    · exact .inr (.inl (.inl hx))
    · exact .inr (.inl (.inr hx))
    · exact .inl hx
    · exact .inr (.inr hx)
  · exact absurd (hg.symm.trans hf) (by simp)
  · exact absurd (hg.symm.trans hf) (by simp)
  · simp only [link, hbrings]
    refine (h.agrees ht).grant (fun he => ?_) (fun hm => ?_) fun n hn hm => ?_
    · exact hnot.1.1 (mem_toList.mpr he)
    · obtain ⟨o, hom, hc⟩ := mem_flatMap.mp hm
      exact hnot.1.2 o hom hc
    · obtain ⟨r, hr, rfl⟩ := mem_map.mp hn
      exact hnot.2 r (mem_append.mp hr) hm

/-- farlandd reads what the agent sent. -/
theorem Inv.read (hg : s.host.greeted = true) (count : ℕ) (now : Time) :
    Inv { s with host := s.host.readAgent now (s.up.take count), up := s.up.drop count } := by
  have hsplit : s.host.inbox ++ s.up = (s.host.inbox ++ s.up.take count) ++ s.up.drop count := by
    rw [append_assoc, take_append_drop]
  have hread : .hello ∉ s.host.inbox ++ s.up.take count := fun hm =>
    h.noHello hg (hsplit ▸ mem_append_left _ hm)
  have hapart : Apart (s.host.record.toList ++ (s.host.inbox ++ s.up.take count).flatMap (·.notice.names)) := by
    refine h.apart.mono fun x hx => ?_
    simp only [inFlight, hsplit, flatMap_append, mem_append] at hx ⊢
    tauto
  have hf : Host.Follows { s.host with inbox := [] } (s.host.readAgent now (s.up.take count))
      ((s.host.inbox ++ s.up.take count).map (·.notice)) :=
    Host.foldl_receive_follows now h.known hread hapart
  have hnotices : s.link.notices = (s.host.inbox ++ s.up.take count).map (·.notice) ++
      (s.up.drop count).map (·.notice) := by rw [link, hsplit, map_append]
  have hagrees := (h.agrees (h.attached hg)).readAll hnotices
  refine ⟨hf.id.trans h.id, hf.known, h.apart.mono fun x hx => ?_, fun hatt => ?_, fun hn => ?_,
    fun _ hn => ?_, fun _ hm => ?_, fun _ => ?_, hf.own h.own⟩
  · simp only [inFlight, hf.inbox, hsplit, flatMap_append, nil_append, mem_append] at hx ⊢
    rcases hx with hx | (hx | hx) | hx
    · rw [hf.record, mem_toList] at hx
      rcases foldl_follow_mem hx with hx | ⟨n, hn, hx⟩
      · exact .inl (mem_toList.mpr hx)
      · obtain ⟨r, hr, rfl⟩ := mem_map.mp hn
        have hin : x ∈ (s.host.inbox ++ s.up.take count).flatMap (·.notice.names) := mem_flatMap.mpr ⟨r, hr, hx⟩
        rw [flatMap_append, mem_append] at hin
        exact .inr (.inr (.inl hin))
    · exact .inr (.inl (.inl hx))
    · exact .inr (.inl (.inr hx))
    · exact .inr (.inr (.inr hx))
  · exact absurd ((h.away hatt).2.symm.trans hg) (by simp)
  · exact absurd (hn.symm.trans (hf.greeted.trans hg)) (by simp)
  · exact absurd (hn.symm.trans (hf.greeted.trans hg)) (by simp)
  · rw [hf.inbox] at hm
    exact h.noHello hg (mem_append_right _ (mem_of_mem_drop hm))
  · show Agrees ⟨_, s.agent.client, s.down.flatMap (·.brings), (_ ++ s.up.drop count).map (·.notice)⟩
    rw [hf.inbox, hf.record]
    exact hagrees

/-! ### Greeting -/

variable {rest : List Report} {count : ℕ}

/-- The first message of a new socket. -/
theorem Inv.hello_of_take (hg : s.host.greeted = false) {r : Report} (htake : s.up.take count = r :: rest) :
    r = .hello := by
  have hup : s.up = r :: (rest ++ s.up.drop count) := by
    conv_lhs => rw [← take_append_drop count s.up, htake]
    rfl
  by_cases hatt : s.agent.attached = true
  · obtain ⟨-, rest', hup', -⟩ := h.hello hatt hg
    rw [hup] at hup'
    exact (List.cons.inj hup').1
  · rw [(h.away (by simpa using hatt)).1] at hup
    cases hup

/-- What is left of a new socket after a read with the Hello in it. -/
theorem Inv.afterHello (hg : s.host.greeted = false) (htake : s.up.take count = .hello :: rest) :
    s.agent.attached = true ∧ s.down = [] ∧ s.up = .hello :: (rest ++ s.up.drop count) ∧
      .hello ∉ rest ++ s.up.drop count := by
  have hup : s.up = .hello :: (rest ++ s.up.drop count) := by
    conv_lhs => rw [← take_append_drop count s.up, htake]
    rfl
  have hatt : s.agent.attached = true := by
    by_contra hf
    rw [(h.away (by simpa using hf)).1] at hup
    cases hup
  obtain ⟨hdown, rest', hup', hrest⟩ := h.hello hatt hg
  obtain rfl : rest' = rest ++ s.up.drop count := by
    rw [hup] at hup'
    exact (List.cons.inj hup').2.symm
  exact ⟨hatt, hdown, hup, hrest⟩

theorem Inv.inFlight_afterHello (hg : s.host.greeted = false) (htake : s.up.take count = .hello :: rest) {x : Conn}
    (hx : x ∈ s.agent.client.toList ++ s.down.flatMap (·.brings) ++
      (rest ++ s.up.drop count).flatMap (·.notice.names)) : x ∈ s.inFlight := by
  rcases mem_append.mp hx with hx | hx
  · exact mem_append_left _ hx
  · refine mem_append_right _ ?_
    rw [(h.ungreeted hg).2, (h.afterHello hg htake).2.2.1]
    exact mem_append_right _ hx

/-- The Hello is read, and nobody is handed over yet. -/
theorem Inv.greet (hg : s.host.greeted = false) (htake : s.up.take count = .hello :: rest) :
    Inv { s with host := s.host.claim rest, up := s.up.drop count } := by
  obtain ⟨hatt, hdown, hup, hrest⟩ := h.afterHello hg htake
  have hinbox := (h.ungreeted hg).2
  have hnotices : s.link.notices = .serves none :: (rest ++ s.up.drop count).map (·.notice) := by
    show (s.host.inbox ++ s.up).map (·.notice) = _
    rw [hinbox]
    conv_lhs => rw [hup]
    rfl
  refine ⟨h.id, connection_setRunning h.known, h.apart.mono fun x hx => ?_, fun hf => ?_, fun hf => ?_,
    fun _ hf => ?_, fun _ => hrest, fun _ => ?_, h.own⟩
  · rcases mem_append.mp hx with hx | hx
    · exact mem_append_left _ hx
    · exact mem_append_right _ (h.inFlight_afterHello hg htake hx)
  · exact absurd (hatt.symm.trans hf) (by simp)
  · cases hf
  · cases hf
  · have hread := (h.agrees hatt).read hnotices
    rwa [follow_serves_none] at hread

end

theorem any_attached_setRunning (r : SessionRegistry) (id : ℕ) :
    ((r.setRunning id).find id).any (·.attached) = (r.find id).any (·.attached) := by
  rw [setRunning, find_update fun s => by split_ifs <;> rfl]
  cases r.find id with
  | none => rfl
  | some s =>
    simp only [map_some]
    split_ifs <;> rfl

theorem Inv.readUnclaimed (h : Inv s) (hg : s.host.greeted = false) {count : ℕ} {now : Time}
    (hfresh : s.Fresh (.readHost count now)) : Inv (s.readUnclaimed count) := by
  unfold System.readUnclaimed
  cases htake : s.up.take count with
  | nil => exact h
  | cons r rest =>
    cases r with
    | hello =>
      have hgreet := h.greet hg htake
      simp only [Host.greet]
      cases hw : s.host.waiting with
      | none => exact hgreet.order rfl [.settings] rfl
      | some client =>
        simp only [Host.claim, any_attached_setRunning]
        split_ifs with hatt
        · have hback := hgreet.host { s.host.claim rest with
            waiting := none, clients := client :: s.host.clients } s.serial rfl rfl rfl rfl rfl rfl
          exact hback.order rfl [.settings] rfl
        · have hhanded : s.handedOver (.readHost count now) = some client := by
            simp only [handedOver]
            rw [if_pos ⟨hg, by rw [htake]; rfl, by simpa using hatt⟩, hw]
          obtain ⟨hz, hnew⟩ := hfresh client hhanded
          have hmoved := hgreet.host { s.host.claim rest with waiting := none } s.serial rfl rfl rfl rfl rfl rfl
          exact hmoved.handOver rfl hz (fun x hx => hnew x (h.inFlight_afterHello hg htake hx))
            (Host.handOver_brings _ client)
    | disconnect client | stats client idleSeconds => exact absurd (h.hello_of_take hg htake) (by simp)

/-! ### Restarts -/

theorem Inv.restart (h : Inv s) (now : Time) : Inv (s.step (.restart now)) where
  id := rfl
  known := connection_start s.policy s.home.idNonzero
  apart := h.apart.mono fun x hx => by
    simp only [step, Host.restored, inFlight, flatMap_nil, append_nil] at hx
    exact mem_append_right _ (mem_append_left _ hx)
  away _ := ⟨rfl, rfl⟩
  ungreeted _ := ⟨rfl, rfl⟩
  hello hatt := by cases hatt
  noHello hg := by cases hg
  agrees hatt := by cases hatt
  own := h.own

/-- The agent's greeting of a new farlandd. -/
theorem Inv.reattach (h : Inv s) (idleSeconds : ℕ) : Inv (s.step (.reattach idleSeconds)) := by
  simp only [step]
  by_cases hatt : s.agent.attached = true
  · rw [if_pos hatt]
    exact h
  · rw [if_neg hatt]
    obtain ⟨hrecord, hinbox⟩ := h.ungreeted (h.away (by simpa using hatt)).2
    generalize htold : (if s.agent.current.isSome then [s.agent.sendStats idleSeconds] else []) = told
    have hnames : told.flatMap (·.notice.names) ⊆ s.agent.client.toList := by
      rw [← htold]
      split_ifs <;> simp [Notice.names]
    have hfollow : (told.map (·.notice)).foldl follow none = s.agent.client := by
      rw [← htold]
      split_ifs with hcur
      · simp [follow]
      · simpa [Agent.client] using hcur
    have hhello : .hello ∉ told := by
      rw [← htold]
      split_ifs
      · simpa using (Agent.sendStats_ne_hello s.agent idleSeconds).symm
      · simp
    refine ⟨h.id, h.known, h.apart.mono fun x hx => ?_, fun hf => ?_, h.ungreeted,
      fun _ _ => ⟨rfl, told, rfl, hhello⟩, fun hg => ?_, fun _ => ?_, h.own⟩
    · simp only [inFlight, hinbox, nil_append, flatMap_nil, append_nil, mem_append, flatMap_cons] at hx ⊢
      rcases hx with hx | hx | hx | hx
      · exact .inl hx
      · exact .inr (.inl (.inl hx))
      · cases hx
      · exact .inr (.inl (.inl (hnames hx)))
    · cases hf
    · exact absurd ((h.away (by simpa using hatt)).2.symm.trans hg) (by simp)
    · show Agrees ⟨s.host.record, s.agent.client, [], (s.host.inbox ++ .hello :: told).map (·.notice)⟩
      rw [hrecord, hinbox]
      exact agrees_anew hfollow

/-! ### Runs -/

theorem step_inv (h : Inv s) : ∀ e : Event, s.Fresh e → Inv (s.step e)
  | .accept, _ => h.host (s.host.acceptClient s.serial) (s.serial + 1) rfl rfl rfl rfl rfl rfl
  | .elsewhere number, _ => h.host (s.host.keepFrom number) s.serial rfl rfl rfl rfl rfl rfl
  | .deliver client, hf => by
    simp only [step]
    split_ifs with hin hg
    · have hleft := h.host { s.host with clients := s.host.clients.erase client } s.serial rfl rfl rfl rfl rfl rfl
      obtain ⟨hz, hnew⟩ := hf client (by simp [handedOver, hin, hg])
      exact hleft.handOver hg hz hnew (Host.handOver_brings _ client)
    · exact h.host { s.host with clients := s.host.clients.erase client, waiting := some client } s.serial rfl rfl rfl rfl rfl rfl
    · exact h
  | .disconnectIdle, _ => by
    simp only [step]
    split
    · split_ifs with hg
      · exact h.order hg _ rfl
      · exact h
    · exact h
  | .readHost count now, hf => by
    simp only [step]
    split_ifs with hup hg
    · exact h
    · exact h.read hg count now
    · exact h.readUnclaimed (by simpa using hg) hf
  | .readAgent waits starts, _ => by
    simp only [step]
    cases hd : s.down with
    | nil => exact h
    | cons order rest =>
      have hbrings : s.down.flatMap (·.brings) = order.brings ++ rest.flatMap (·.brings) := by rw [hd]; rfl
      refine h.agent (Agent.receive_attached _ _ _ _) (fun hn => by rw [hd] at hn; cases hn)
        (Agent.receive_hello _ _ _ _) (fun x hx => ?_) fun hagrees => ?_
      · have hnames := Agent.receive_names s.agent waits starts order
        rw [hbrings]
        simp only [mem_append] at hx ⊢
        rcases hx with (hx | hx) | hx
        · rcases mem_append.mp (hnames (mem_append_left _ hx)) with h1 | h1
          · exact .inl h1
          · exact .inr (.inl h1)
        · exact .inr (.inr hx)
        · rcases mem_append.mp (hnames (mem_append_right _ hx)) with h1 | h1
          · exact .inl h1
          · exact .inr (.inl h1)
      · refine Agent.receive_agrees ?_ waits starts
        rw [← hbrings]
        exact hagrees
  | .threadEnds, _ => by
    have hclient : ({ s.agent with current := s.agent.current.map fun c => { c with finished := true } } : Agent).client =
        s.agent.client := by
      rcases s.agent with ⟨_ | c, attached⟩ <;> rfl
    have hsend : s.send [] = s.up := by unfold send; split_ifs <;> simp
    have hstep : Inv { s with
        agent := { s.agent with current := s.agent.current.map fun c => { c with finished := true } }
        up := s.send [] } :=
      h.agent rfl id (by simp) (by simp [hclient]) fun hagrees => by
        rw [hclient, map_nil, append_nil]
        exact hagrees
    rwa [hsend] at hstep
  | .join, _ => by
    simp only [step]
    split_ifs with hfin
    · refine h.agent (Agent.joinConnection_attached _) id ?_ ?_ fun hagrees => ?_
      · rcases s.agent with ⟨_ | c, attached⟩ <;> simp [Agent.joinConnection]
      · rw [Agent.joinConnection_client, Agent.joinConnection_names]
        exact (perm_append_comm).subset
      · rw [Agent.joinConnection_client]
        exact Agent.joinConnection_agrees hagrees
    · exact h
  | .stats idleSeconds, _ => by
    refine h.agent rfl id ?_ ?_ fun hagrees => ?_
    · simpa using (Agent.sendStats_ne_hello s.agent idleSeconds).symm
    · simp [Notice.names]
    · rw [map_singleton, Agent.sendStats_notice]
      exact hagrees.tell
  | .restart now, _ => h.restart now
  | .reattach idleSeconds, _ => h.reattach idleSeconds

theorem run_inv : ∀ (events : List Event) {s : System}, Inv s → s.AllFresh events → Inv (s.run events)
  | [], _, h, _ => h
  | e :: events, _, h, hf => run_inv events (step_inv h e hf.1) hf.2

/-- **Who holds the session.** In a run in which every client that is handed
over has a nonzero number that neither the agent's client nor a message on
its way has, a quiet state with nothing left in farlandd's inbox has the
agent's client in the registry, and a Disconnect only ever cleared the record
of its own connection. -/
theorem run_agreed (policy : PolicySection) (home : Stored) (events : List Event)
    (hfresh : (start policy home).AllFresh events) :
    (((start policy home).run events).Quiescent → ((start policy home).run events).host.inbox = [] →
      ((start policy home).run events).Agreed) ∧ ((start policy home).run events).OwnReports := by
  have h := run_inv events (start_inv policy home) hfresh
  exact ⟨h.agreed, h.own⟩

/-- **At any time** a number stands for one connection, and the record agrees
with the agent's client up to what is on its way. -/
theorem run_apart (policy : PolicySection) (home : Stored) (events : List Event)
    (hfresh : (start policy home).AllFresh events) :
    let s := (start policy home).run events
    Apart (s.host.record.toList ++ s.inFlight) ∧ (s.agent.attached = true → Agrees s.link) := by
  have h := run_inv events (start_inv policy home) hfresh
  exact ⟨h.apart, h.agrees⟩

/-- Session 1 of nobody in particular. -/
def sessionOne : Stored := ⟨⟨1, [], false, 0⟩, by decide⟩

/-- The agent greets, and the first client gets the session. -/
def firstServed : List Event :=
  [.reattach 0, .readHost 1 0, .accept, .deliver ⟨1, 0⟩, .readAgent 0 true, .readAgent 0 true]

/-- farlandd restarts, and its second client takes the session over from the
first of the farlandd before, whom the Stats after the Hello reported. -/
def takenOver : List Event :=
  firstServed ++ [.restart 0, .reattach 0, .readHost 1 0, .readHost 1 0, .accept, .deliver ⟨2, 1⟩, .readAgent 0 true,
    .readAgent 0 true, .readAgent 1 true, .readHost 2 0]

theorem takenOver_agreed :
    ((start {} sessionOne).run takenOver).Quiescent ∧ ((start {} sessionOne).run takenOver).agent.client = some ⟨2, 1⟩ ∧
      ((start {} sessionOne).run takenOver).Agreed ∧ ((start {} sessionOne).run takenOver).OwnReports := by
  have h := run_agreed {} sessionOne takenOver (by decide)
  exact ⟨by decide, by decide, h.1 (by decide) (by decide), h.2⟩

theorem takenOver_apart : Apart (((start {} sessionOne).run takenOver).host.record.toList ++
    ((start {} sessionOne).run takenOver).inFlight) :=
  (run_apart {} sessionOne takenOver (by decide)).1

/-- The Stats came in one read with the Hello, and is not looked at. -/
def greetedWithStats : List Event := firstServed ++ [.restart 0, .reattach 0, .readHost 2 0, .readAgent 0 true]

/-- A client that waited for the agent got the number of the one it serves. -/
def numberGivenAgain : List Event :=
  firstServed ++ [.restart 0, .accept, .deliver ⟨1, 1⟩, .reattach 0, .readHost 1 0, .readHost 1 0, .readAgent 0 true,
    .readAgent 0 true, .readHost 1 0]

/-- The agent serves a client, and the registry has none, as the client's
Stats is left in the inbox; and the end of the client before cleared the
record of the one after it. -/
theorem unread_after_greeting :
    (¬ ∀ (policy : PolicySection) (home : Stored) (events : List Event),
      ((start policy home).run events).Quiescent → ((start policy home).run events).Agreed) ∧
    ¬ ∀ (policy : PolicySection) (home : Stored) (events : List Event), ((start policy home).run events).OwnReports := by
  constructor
  · intro h
    have hread : ((start {} sessionOne).run greetedWithStats).Quiescent ∧
        ¬ ((start {} sessionOne).run greetedWithStats).Agreed := by decide
    exact hread.2 (h {} sessionOne greetedWithStats hread.1)
  · intro h
    have hcleared : ¬ ((start {} sessionOne).run numberGivenAgain).OwnReports := by decide
    exact hcleared (h {} sessionOne numberGivenAgain)

end System
end Connections
end Broker
end Farland
