/-
# The daemon

farlandd's main loop (`Daemon::Impl` of `daemon.cpp`) as state passing: every
handler of the loop takes the daemon's state and gives the next one. What is
outside (the clock, the sockets, logind, PAM and GDM) is in a `World`, which
may be another one for each call of a handler; whether a send reaches its
agent depends on its place in the history, so any pattern of failures is one
of some `World`.

A `Live&` or `Live*` of the source is the id of the record. Whatever is done
through it first notes whether the record is still in `live` (`use`): a use
after `endSession` took it away is a use of freed memory.

`log` is a history variable: what was sent, asked, answered and handed over,
with what was so at that moment. The code does not read it, nor `serving`,
which says whom the agent of a session really serves.
-/
import Farland.Daemon.Consent
import Farland.Daemon.SeatTakeover

namespace Farland
namespace Daemon

open Server Server.Broker

/-! ### Constants -/

def startTimeout : Time := 90 * second
def terminateGrace : Time := 15 * second
def agentSilenceLimit : Time := 30 * second
def reattachGraceWithClient : Time := 5 * second
def helloTimeout : Time := 10 * second
def reattachWindow : Time := 120 * second
def unlockWindow : Time := 30 * second

/-- A question about a login at the machine runs under a number from here on. -/
def seatConnectionBit : ℕ := 2 ^ 63

def maxPreauthClients : ℕ := 64
def maxIdentityName : ℕ := 1024

/-- `proto::errinfo`, [MS-RDPBCGR] 2.2.5.1.1. -/
def errinfoIdleTimeout : ℕ := 0x00000003
def errinfoDisconnectedByOtherConnection : ℕ := 0x00000005
def errinfoOutOfMemory : ℕ := 0x00000006
def errinfoServerDeniedConnection : ℕ := 0x00000007

/-! ### Records -/

/-- A local account. -/
structure Account where
  name : Text
  uid : ℕ
  deriving DecidableEq

/-- A client through NLA, on its way to a session. -/
structure Authenticated where
  id : ℕ
  peer : Text := []
  account : Text
  negotiation : Negotiation
  /-- What the client calls itself (`peek_client_name`). -/
  clientName : Text := []
  accepted : Time := 0
  password : Text := []
  deriving DecidableEq

/-- A session launch that ran on its own thread. -/
structure Launched where
  session : ℕ
  ok : Bool
  loginSession : Text
  account : Text
  gdm : Bool
  deriving DecidableEq

/-- A process on the agent socket that has not said Hello yet. -/
structure AgentPeer where
  uid : ℕ
  inbox : List Frame := []
  since : Time

/-- The client that an agent serves: its number, and whether the farlandd
before the restart handed it over. -/
structure Holder where
  connection : ℕ
  restored : Bool
  deriving DecidableEq

/-- One session: its agent and the clients on their way to it. -/
structure Live where
  id : ℕ
  account : Text
  user : Option Account := none
  token : Token := Token.zero
  link : Option AgentLink := none
  /-- The agent's socket is open. -/
  agent : Bool := false
  inbox : List Frame := []
  process : Option ℕ := none
  loginSession : Text := []
  gdm : Bool := false
  unit : Text := []
  waiting : Option Authenticated := none
  /-- Held while whoever has the session is asked. -/
  asking : Option Authenticated := none
  created : Time := 0
  peer : Text := []
  stats : Stats := {}
  lastHeard : Time := 0
  reattachToken : Token := Token.zero
  reattachDeadline : Option Time := none
  terminateSent : Option Time := none
  endTag : Text := []
  serving : Option Holder := none

/-- A session as it is written down for the next farlandd. -/
structure StoredSession where
  id : ℕ
  account : Text
  uid : ℕ
  attached : Bool := false
  gdm : Bool := false
  loginSession : Text := []
  unit : Text := []
  token : Token := Token.zero

/-- What is outside, during one call of a handler. -/
structure World where
  now : Time := 0
  /-- Whether the send at this place of the history reaches its agent. -/
  reaches : ℕ → Bool := fun _ => true
  lookupAccount : Text → Option Account := fun _ => none
  localGraphicalSession : ℕ → Option Text := fun _ => none
  sessionShowsAtTheMachine : ℕ → Bool := fun _ => false
  sessionLockedAtTheMachine : ℕ → Bool := fun _ => false
  loginSessionExists : Text → Bool := fun _ => true
  /-- The random token of a new session. -/
  token : ℕ → Option Token := fun _ => some Token.zero
  /-- The process started for a new session. -/
  started : ℕ → Option ℕ := fun session => some session
  /-- The processes that have exited. -/
  exited : ℕ → Bool := fun _ => false

structure Options where
  policy : PolicySection := {}
  /-- Development mode without PAM. -/
  noPam : Bool := false
  uid : ℕ := 0
  /-- The desktop is GNOME. -/
  gnome : Bool := false

/-! ### History -/

/-- How a prompt leaves the broker. -/
inductive Leaving where
  | answered | released | ended | due | forgotten
  deriving DecidableEq

inductive Entry where
  /-- `accept_client` gave out a number. -/
  | accepted (connection : ℕ)
  /-- A Stats of the session's agent named a connection. -/
  | reported (session connection : ℕ)
  /-- The record behind a reference was used; whether it was still there. -/
  | used (session : ℕ) (there : Bool)
  /-- A message reached the session's agent, which served `holder`. -/
  | sent (session : ℕ) (message : Message) (holder : Option Holder)
  | unreached (session : ℕ) (message : Message)
  /-- The session ended with these prompts out; `cause` is the message that
  did not reach its agent, if that was why, and `undecided` has the questions
  of the logins that still waited, about any session. -/
  | ended (session : ℕ) (cause : Option Message) (abandoned : List Prompt) (undecided : List ℕ)
  | refused (connection errorInfo : ℕ) (reason : Text)
  | asked (prompt : Prompt)
  | left (how : Leaving) (prompts : List Prompt)
  /-- A ConsentReply of the session's agent, and the prompt it was taken for. -/
  | replied (session connection : ℕ) (answer : ConsentAnswer) (prompt : Option Prompt)
  /-- A resolution was acted on, as a login's at the machine or not. -/
  | settled (resolved : Resolved) (seat : Bool)
  /-- A client came for a session whose agent served `holder`, while the
  registry knew `known`. -/
  | delivered (session connection : ℕ) (holder : Option Holder) (known : Option ℕ) (attached : Bool)
  /-- The agent, which served `holder`, greeted while a client waited. -/
  | brought (session connection : ℕ) (holder : Option Holder)
  /-- The agent reported the end of a connection. -/
  | gone (session connection : ℕ) (holder : Option Holder) (known : Option ℕ) (attached : Bool)
  /-- `hand_over` was called, while the agent served `holder` and a question
  about another client was out. -/
  | handing (session connection : ℕ) (holder : Option Holder) (asking : Option ℕ)
  /-- A login at the machine is asked about under a number. -/
  | seatAsked (connection cookie : ℕ)
  /-- A login came to the gate. -/
  | login (cookie : ℕ)
  deriving DecidableEq

/-! ### The daemon -/

structure Impl where
  options : Options := {}
  registry : SessionRegistry := {}
  consent : ConsentBroker := {}
  /-- The accounts whose session is being unlocked, and until when. -/
  unlocking : List (Text × Time) := []
  /-- Questions that are over, waiting for the loop to act on them. -/
  resolutions : List Resolved := []
  seatGate : SeatTakeoverGate := {}
  /-- The logins being asked about: connection and cookie. -/
  seatQuestions : List (ℕ × ℕ) := []
  nextSeatConnection : ℕ := seatConnectionBit
  nextConnection : ℕ := 1
  /-- The clients in pre-authentication. -/
  authenticating : List ℕ := []
  /-- Their threads, and those that wait for a network process to end. -/
  clientThreads : ℕ := 0
  unclaimed : List AgentPeer := []
  live : List Live := []
  /-- The sessions the control API asked to end. -/
  terminations : List ℕ := []
  /-- The sessions as written down. -/
  table : List StoredSession := []
  shuttingDown : Bool := false
  log : List Entry := []

namespace Impl

variable (d : Impl)

def find (id : ℕ) : Option Live := d.live.find? fun s => s.id == id

def note (e : Entry) : Impl := { d with log := d.log ++ [e] }

/-- Something is done through a reference to the record of `id`. -/
def use (id : ℕ) : Impl := d.note (.used id (d.find id).isSome)

/-- Changes the first record of an id. -/
def updateFirst (id : ℕ) (f : Live → Live) : List Live → List Live
  | [] => []
  | s :: rest => if s.id = id then f s :: rest else s :: updateFirst id f rest

/-- A write through a reference. -/
def modify (id : ℕ) (f : Live → Live) : Impl := { d.use id with live := updateFirst id f d.live }

def refuse (client : Authenticated) (errorInfo : ℕ) (reason : Text) : Impl :=
  d.note (.refused client.id errorInfo reason)

/-- A session that is ending, or whose agent never greeted, has nothing to
come back to. -/
def rememberSessions : Impl :=
  { d with
    table := (d.live.filter fun s => s.terminateSent.isNone && s.link.isSome).map fun s =>
      { id := s.id, account := s.account, uid := (s.user.map (·.uid)).getD d.options.uid
        attached := (d.registry.find s.id).any (·.attached)
        gdm := s.gdm, loginSession := s.loginSession, unit := s.unit, token := s.reattachToken } }

/-! ### Prompts -/

/-- `consent.forget`. -/
def forget (connection : ℕ) : Impl :=
  { d with
    consent := d.consent.forget connection
    log := d.log ++ [.left .forgotten (d.consent.prompts.filter fun p => p.connection == connection)] }

/-- `consent.ask`, which forgets an earlier prompt of the connection. -/
def ask (session connection : ℕ) (who : Party) (now : Time) : Impl :=
  { d with
    consent := (d.consent.ask session connection who now).1
    log := d.log ++ [.left .forgotten (d.consent.prompts.filter fun p => p.connection == connection),
      .asked (d.consent.promptOf session connection now)] }

/-- `consent.answered`, on a ConsentReply of the session's agent. -/
def answer (session connection : ℕ) (a : ConsentAnswer) : Impl :=
  { d with
    resolutions := d.resolutions ++ (d.consent.answered connection a).2.toList
    consent := (d.consent.answered connection a).1
    log := d.log ++ [.replied session connection a (d.consent.find connection),
      .left .answered (d.consent.find connection).toList] }

/-- `consent.released`. -/
def release (session : ℕ) : Impl :=
  { d with
    resolutions := d.resolutions ++ (d.consent.released session).2
    consent := (d.consent.released session).1
    log := d.log ++ [.left .released (d.consent.take session).2] }

/-- `consent.ended`; what it gives is only looked at for its reasons. -/
def abandon (session : ℕ) : Impl :=
  { d with
    consent := (d.consent.ended session).1
    log := d.log ++ [.left .ended (d.consent.take session).2] }

/-- `consent.due`. -/
def expire (now : Time) : Impl :=
  { d with
    resolutions := d.resolutions ++ (d.consent.due now).2
    consent := (d.consent.due now).1
    log := d.log ++ [.left .due (d.consent.prompts.filter fun p => p.deadline ≤ now)] }

/-! ### Ending and sending -/

/-- The numbers of the questions whose login still waits for its answer. -/
def undecided : List ℕ :=
  (d.seatQuestions.filter fun q => d.seatGate.pending.any fun p => p.cookie == q.2 && ! p.done).map (·.1)

/-- The record goes, and is not written down any more. -/
def dropRecord (id : ℕ) (cause : Option Message) (abandoned : List Prompt) : Impl :=
  let d : Impl := { d with
    registry := d.registry.remove id
    live := d.live.filter fun s => s.id != id
    log := d.log ++ [.ended id cause abandoned d.undecided] }
  if d.shuttingDown then d else d.rememberSessions

/-- Why the client that is asked about is refused when its session ends. -/
def reasonFor (id : ℕ) (client : Authenticated) : Text :=
  (((d.consent.ended id).2.find? fun r => r.connection == client.id).map (·.reason)).getD (text "its session ended")

/-- The session ends; the client that is being asked about is refused. -/
def endSession (id : ℕ) (cause : Option Message) : Impl :=
  let dropped := (d.use id).abandon id
  match (d.find id).bind (·.asking) with
  | some client =>
    (dropped.refuse client errinfoServerDeniedConnection (d.reasonFor id client)).dropRecord id cause
      (d.consent.take id).2
  | none => dropped.dropRecord id cause (d.consent.take id).2

/-- A message for the session's agent; when it does not get there the session
ends. -/
def sendTo (w : World) (id : ℕ) (message : Message) : Impl × Bool :=
  let d := d.use id
  if (d.find id).any (·.agent) ∧ w.reaches d.log.length then
    (d.note (.sent id message ((d.find id).bind (·.serving))), true)
  else ((d.note (.unreached id message)).endSession id (some message), false)

/-! ### Clients -/

/-- The account's session is being unlocked for a client that brings a
password. -/
def noteUnlock (w : World) (id : ℕ) (client : Authenticated) : Impl :=
  match d.find id with
  | some s =>
    if client.password ≠ [] ∧ d.options.noPam = false ∧
        s.user.any (fun u : Account => w.sessionLockedAtTheMachine u.uid) then
      { d with unlocking := d.unlocking.filter (fun e => e.1 != s.account) ++ [(s.account, w.now + unlockWindow)] }
    else d
  | none => d

variable (w : World)

def newConnectionOf (client : Authenticated) : Message :=
  .newConnection client.id client.negotiation client.password (client.peer.take 255)
    (min ((w.now - client.accepted) / 10 ^ 6) 3600000)

/-- The NewConnection, once the client before is told to go. -/
def sendClient (w : World) (id : ℕ) (client : Authenticated) : Impl :=
  let sent := ((d.use id).noteUnlock w id client).sendTo w id (newConnectionOf w client)
  if sent.2 then sent.1.modify id fun s => { s with peer := client.peer, serving := some ⟨client.id, false⟩ }
  else sent.1

/-- `registry.connect`, with the holder and the client that is asked about. -/
def connect (id : ℕ) (client : Authenticated) : Impl :=
  { (d.use id).note (.handing id client.id ((d.find id).bind (·.serving)) (((d.find id).bind (·.asking)).map (·.id)))
    with
    registry := (d.registry.connect id client.id).1 }

/-- The connection and its socket go to the session's agent. -/
def handOver (w : World) (id : ℕ) (client : Authenticated) : Impl :=
  let replaced := (d.registry.connect id client.id).2
  if replaced ≠ 0 then
    let told := (d.connect id client).sendTo w id (.disconnect replaced errinfoDisconnectedByOtherConnection)
    if told.2 then told.1.sendClient w id client else told.1
  else (d.connect id client).sendClient w id client

/-- The user as NLA named them. -/
def userName (identity : Identity) : Text :=
  if identity.domain = [] then identity.user else identity.domain ++ text "\\" ++ identity.user

def party (client : Authenticated) : Party where
  user := (client.negotiation.identity.map userName).getD client.account
  peer := client.peer
  clientName := client.clientName

/-- A client that is already being asked about gives way. -/
def replaceAsking (id : ℕ) : Impl :=
  match (d.find id).bind (·.asking) with
  | some older =>
    ((d.modify id fun s => { s with asking := none }).forget older.id).refuse older errinfoServerDeniedConnection
      (text "another connection asked for the session first")
  | none => d.use id

/-- The client is held while the session's user is asked. -/
def askConsent (w : World) (id : ℕ) (client : Authenticated) : Impl :=
  let d := d.replaceAsking id
  let request := (d.consent.ask id client.id (party client) w.now).2
  let d := (d.ask id client.id (party client) w.now).modify id fun s => { s with asking := some client }
  (d.sendTo w id (.consentRequest request)).1

/-- Applies [policy] takeover, then hands the connection over or holds it. -/
def deliver (w : World) (id : ℕ) (client : Authenticated) (atTheMachine : Bool) : Impl :=
  let d := d.use id
  match d.find id with
  | none => d
  | some s =>
    if s.link = none then
      d.modify id fun s =>
        { s with
          waiting := some client
          reattachDeadline := s.reattachDeadline.map fun t => min t (w.now + reattachGraceWithClient) }
    else
      let state := d.registry.find id
      let held := state.any fun state => state.connection ≠ 0 ∨ state.attached ∨ atTheMachine
      let d := d.note (.delivered id client.id s.serving (state.map (·.connection)) (state.any (·.attached)))
      match d.consent.takeoverOf held with
      | .refuse => d.refuse client errinfoServerDeniedConnection (d.consent.refusal s.account)
      | .ask => d.askConsent w id client
      | .handOver => d.handOver w id client

/-- A new session for the account, which the client waits for. -/
def startSession (w : World) (client : Authenticated) (account : Text) (user : Option Account) (attach ownShell : Bool) :
    Impl :=
  let id := (d.registry.create account attach w.now).2
  let d : Impl := { d with registry := (d.registry.create account attach w.now).1 }
  match w.token id with
  | none => refuse { d with registry := d.registry.remove id } client errinfoOutOfMemory
      (text "no randomness for a session token")
  | some token =>
    let session : Live := { id, account, user, created := w.now, token, waiting := some client }
    if d.options.noPam = false ∧ (attach ∨ d.options.gnome ∧ ownShell = false) then
      -- GDM or the user at the seat starts the login session.
      let session := { session with gdm := ! attach, unit := text s!"farland-agent-{id}.service" }
      { d with live := d.live ++ [session] }
    else
      match w.started id with
      | none => endSession { d with live := d.live ++ [session] } id none
      | some process => { d with live := d.live ++ [{ session with process := some process }] }

/-- What `admit` decided about the client. -/
def place (w : World) (client : Authenticated) (user : Option Account) (decision : Decision) : Impl :=
  match decision.admission with
  | .existing =>
    match d.find decision.session with
    | none => d
    | some s =>
      -- A session whose login session has gone cannot serve anybody.
      if s.loginSession ≠ [] ∧ d.options.noPam = false ∧ w.loginSessionExists s.loginSession = false then
        let attach := (d.registry.find s.id).any (·.attached)
        (d.endSession s.id none).startSession w client client.account user attach false
      else d.deliver w s.id client (user.any fun u => w.sessionShowsAtTheMachine u.uid)
  | .create => d.startSession w client client.account user false false
  | .attachLocal => d.startSession w client client.account user true false
  | .replaceLocal => d.startSession w client client.account user false false
  | .separateLocal => d.startSession w client client.account user false true
  | .refuseLocalSession | .refuseLimit => d.refuse client decision.errorInfo decision.reason

/-- The account of the client, unless in development mode. -/
def userOf (w : World) (client : Authenticated) : Option Account :=
  if d.options.noPam then none else w.lookupAccount client.account

/-- `handle(Authenticated)`. -/
def handleAuthenticated (w : World) (client : Authenticated) : Impl :=
  let identity := client.negotiation.identity.getD ⟨[], []⟩
  let user := d.userOf w client
  if maxIdentityName < identity.user.length ∨ maxIdentityName < identity.domain.length ∨ client.account = [] then
    d.refuse client errinfoServerDeniedConnection (text "the user name is too long")
  else if d.options.noPam = false ∧ user = none then
    d.refuse client errinfoServerDeniedConnection (userName identity ++ text " has no local account " ++ client.account)
  else if d.options.noPam = false ∧ user.any (·.uid == 0) then
    d.refuse client errinfoServerDeniedConnection (text "root may not log in remotely")
  else
    let localSession := (d.registry.findAccount client.account).isNone &&
      user.any fun u => (w.localGraphicalSession u.uid).isSome
    d.place w client user (d.registry.admitAccount client.account localSession)

/-- `handle(Launched)`. -/
def handleLaunched (launched : Launched) : Impl :=
  match d.find launched.session with
  | none => d
  | some _ =>
    let d := d.modify launched.session fun s => { s with loginSession := launched.loginSession }
    if launched.ok = false then d.endSession launched.session none else d

def acceptClient : Impl :=
  if maxPreauthClients ≤ d.clientThreads then d
  else
    { d with
      clientThreads := d.clientThreads + 1
      nextConnection := (d.nextConnection + 1) % 2 ^ 64
      authenticating := d.authenticating ++ [d.nextConnection]
      log := d.log ++ [.accepted d.nextConnection] }

/-! ### Agents -/

def acceptAgent (w : World) (uid : ℕ) : Impl :=
  { d with unclaimed := d.unclaimed ++ [{ uid, since := w.now }] }

/-- The session that a greeting may claim. -/
def claims (uid : ℕ) (token : Token) (s : Live) : Bool :=
  let expected := if d.options.noPam then d.options.uid else (s.user.map (·.uid)).getD d.options.uid
  s.link.isNone && s.terminateSent.isNone && uid == expected && token == s.token

/-- The client that waited for the agent. -/
def bringWaiting (w : World) (id : ℕ) : Impl :=
  match (d.find id).bind (·.waiting) with
  | none => d.use id
  | some client =>
    let d := d.modify id fun s => { s with waiting := none }
    if (d.registry.find id).any (·.attached) then d.deliver w id client false
    else
      (d.note (.brought id client.id ((d.find id).bind (·.serving)))).handOver w id client

/-- The agent of a session has greeted. -/
def greeted (w : World) (id : ℕ) (link : AgentLink) (inbox : List Frame) : Impl :=
  let d := d.modify id fun s =>
    { s with
      reattachToken := s.token, link := some link, token := Token.zero, agent := true, inbox := inbox
      reattachDeadline := none, lastHeard := w.now }
  let d := rememberSessions { d with registry := d.registry.setRunning id }
  let sent := d.sendTo w id .settings
  if sent.2 then sent.1.bringWaiting w id else sent.1

/-- What a peer on the agent socket sent; whether the peer is dropped. -/
def readUnclaimed (w : World) (peer : AgentPeer) : Impl × Bool :=
  match peer.inbox with
  | [] => (d, false)
  | .oversize :: _ => (d, true)
  | frame :: inbox =>
    match decodeFromAgent frame with
    | some (.hello _ token) =>
      match d.live.find? (d.claims peer.uid token) with
      | none => (d, true)
      | some s =>
        match ({ expected := s.token } : AgentLink).receive frame with
        | (_, none) => (d.modify s.id fun s => { s with reattachToken := s.token }, true)
        | (link, some _) => (d.greeted w s.id link inbox, true)
    | _ => (d, true)

/-- `registry.disconnected`; the agent no longer serves that client. -/
def disconnected (w : World) (id connection : ℕ) : Impl :=
  let state := d.registry.find id
  let d := d.note (.gone id connection ((d.find id).bind (·.serving)) (state.map (·.connection))
    (state.any (·.attached)))
  let d := d.modify id fun s => { s with serving := s.serving.filter fun h => h.connection != connection }
  { d with registry := d.registry.disconnected id connection w.now }

/-- The agent reports the end of a connection. -/
def receiveDisconnect (w : World) (id connection : ℕ) : Impl :=
  let d := d.disconnected w id connection
  match d.registry.find id with
  | none => d
  | some state =>
    if state.connection = 0 then
      let d := d.modify id fun s => { s with peer := [] }
      -- Whoever was asked has left; the question falls away.
      if state.attached = false then d.release id else d
    else d

/-- The client that the agent says it serves. After a restart this farlandd
may not know it; later clients get other numbers. -/
def report (id connection : ℕ) : Impl :=
  { d with
    registry := d.registry.adoptConnection id connection
    nextConnection := max d.nextConnection ((connection + 1) % 2 ^ 64)
    log := d.log ++ [.reported id connection] }

/-- The agent's Stats. -/
def receiveStats (id : ℕ) (stats : Stats) : Impl :=
  let d := if stats.connectionId ≠ 0 then d.report id stats.connectionId else d
  modify { d with registry := d.registry.updateIdle id stats.connectionId stats.idleSeconds } id fun s =>
    { s with stats := stats }

/-- One message of the session's agent. -/
def receive (w : World) (id : ℕ) : Message → Impl
  | .disconnect connection _ => d.receiveDisconnect w id connection
  | .consentReply connection a => (d.use id).answer id connection a
  | .sessionEnded _ _ => use { d with registry := d.registry.setEnding id } id
  | .stats stats => d.receiveStats id stats
  | _ => d.use id

/-- The next frame of the session's inbox; whether the loop goes on. -/
def readFrame (id : ℕ) (frame : Frame) (rest : List Frame) (d : Impl) : Impl × Bool :=
  match frame with
  | .oversize => (d.endSession id none, false)
  | frame =>
    let d := d.modify id fun s => { s with inbox := rest }
    match (d.find id).bind (·.link) with
    | none => (d, true)
    | some link =>
      match link.receive frame with
      | (_, none) => (d.endSession id none, false)
      | (link, some message) => ((d.modify id fun s => { s with link := some link }).receive w id message, true)

/-- The frames of the session's inbox, in order; whether the session is still
there. -/
def readFrames (id : ℕ) : List Frame → Impl → Impl × Bool
  | [], d => (d, true)
  | frame :: rest, d =>
    let read := readFrame w id frame rest d
    if read.2 then readFrames id rest read.1 else read

/-- `read_agent`, with what the socket brought. -/
def readAgent (w : World) (id : ℕ) (frames : List Frame) (isOpen : Bool) : Impl :=
  match d.find id with
  | none => d
  | some s =>
    if s.agent = false then d
    else
      let d := d.modify id fun s => { s with inbox := s.inbox ++ frames, lastHeard := w.now }
      let read := readFrames w id (s.inbox ++ frames) d
      if read.2 ∧ isOpen = false then read.1.endSession id none else read.1

/-! ### Questions -/

/-- The login has its answer. -/
def letGo (cookie : ℕ) (allowed : Bool) : Impl :=
  { d with seatGate := d.seatGate.resolve cookie allowed }

/-- `seat_questions.erase`. -/
def closeQuestion (connection : ℕ) : Impl :=
  { d with seatQuestions := d.seatQuestions.filter fun q => q.1 != connection }

/-- The next number of a login's question, and the question. -/
def openQuestion (w : World) (session : ℕ) (waiting : Waiting) : Impl :=
  let connection := d.nextSeatConnection
  let d := (d.use session).ask session connection { user := waiting.account } w.now
  { d with
    nextSeatConnection := (connection + 1) % 2 ^ 64
    seatQuestions := if d.seatQuestions.any fun q => q.1 == connection then d.seatQuestions
      else d.seatQuestions ++ [(connection, waiting.cookie)]
    log := d.log ++ [.seatAsked connection waiting.cookie] }

/-- [policy] seat_takeover = "ask". -/
def questionSeat (w : World) (session : ℕ) (waiting : Waiting) : Impl :=
  let connection := d.nextSeatConnection
  let request := (d.consent.ask session connection { user := waiting.account } w.now).2
  let sent := (d.openQuestion w session waiting).sendTo w session (.consentRequest { request with fromSeat := true })
  if sent.2 then sent.1 else (sent.1.closeQuestion connection).letGo waiting.cookie true

/-- One login at the machine that nobody was asked about yet. -/
def askSeat (w : World) (waiting : Waiting) : Impl :=
  if d.unlocking.any fun e => e.1 = waiting.account ∧ w.now < e.2 then d.letGo waiting.cookie true
  else
    match d.registry.findAccount waiting.account with
    | none => d.letGo waiting.cookie true
    | some state =>
      if (d.find state.id).any (fun s => s.link.isSome) = false ∨ state.connection = 0 then
        d.letGo waiting.cookie true
      else
        match d.options.policy.seatTakeover with
        | .always => (d.sendTo w state.id (.seatTakeover true)).1.letGo waiting.cookie true
        | .never =>
          let sent := d.sendTo w state.id (.seatTakeover false)
          sent.1.letGo waiting.cookie (! sent.2)
        | .ask => d.questionSeat w state.id waiting

/-- The accounts whose session a client holds. -/
def heldAccounts : List Text := (d.registry.sessions.filter fun s => s.connection != 0).map (·.account)

/-- The logins that `ask_the_seat` takes from the gate. -/
def newLogins : List Waiting := (d.seatGate.setHeldAccounts d.heldAccounts).takeNew.2

def takeLogins : Impl := { d with seatGate := (d.seatGate.setHeldAccounts d.heldAccounts).takeNew.1 }

/-- The logins waiting to be asked about, and the accounts held now. -/
def askTheSeat (w : World) : Impl := d.newLogins.foldl (fun d waiting => d.askSeat w waiting) d.takeLogins

/-- Tells the agent what became of a login at the machine. -/
def tellSeat (w : World) (resolved : Resolved) : Impl :=
  if (d.find resolved.session).isSome then
    if resolved.withdraw then
      let cancelled := d.sendTo w resolved.session (.consentCancel resolved.connection)
      if cancelled.2 then (cancelled.1.sendTo w resolved.session (.seatTakeover resolved.allowed)).1 else cancelled.1
    else (d.sendTo w resolved.session (.seatTakeover resolved.allowed)).1
  else d

/-- Acts on a login's question that is over. -/
def resolveSeat (w : World) (resolved : Resolved) (cookie : ℕ) : Impl :=
  let d := d.tellSeat w resolved
  -- Nobody holds a session that just ended, so that login goes through.
  (d.letGo cookie (resolved.allowed || (d.find resolved.session).isNone)).closeQuestion resolved.connection

/-- What becomes of the client that was held. -/
def answerClient (w : World) (resolved : Resolved) (client : Authenticated) : Impl :=
  if resolved.allowed then d.handOver w resolved.session client
  else d.refuse client errinfoServerDeniedConnection resolved.reason

/-- Acts on a client's question that is over. -/
def resolveClient (w : World) (resolved : Resolved) : Impl :=
  match (d.find resolved.session).bind (·.asking) with
  | none => d
  | some client =>
    if client.id ≠ resolved.connection then d
    else
      let d := d.modify resolved.session fun s => { s with asking := none }
      if resolved.withdraw then
        let cancelled := d.sendTo w resolved.session (.consentCancel resolved.connection)
        if cancelled.2 then cancelled.1.answerClient w resolved client
        else cancelled.1.refuse client errinfoServerDeniedConnection (text "its session ended")
      else d.answerClient w resolved client

/-- Acts on one answered, timed-out or withdrawn question. -/
def resolve (w : World) (resolved : Resolved) : Impl :=
  match d.seatQuestions.find? fun q => q.1 == resolved.connection with
  | some question => (d.note (.settled resolved true)).resolveSeat w resolved question.2
  | none => (d.note (.settled resolved false)).resolveClient w resolved

def settleLoop : ℕ → Impl → Impl
  | 0, d => d
  | n + 1, d => match d.resolutions with
    | [] => d
    | resolved :: rest => settleLoop n (resolve { d with resolutions := rest } w resolved)

/-- Every question that has an answer by now. -/
def settle (w : World) : Impl := settleLoop w d.resolutions.length d

/-! ### Ticks -/

/-- A session the control API asked to end. -/
def terminate (w : World) (id : ℕ) : Impl :=
  match d.find id with
  | none => d
  | some _ =>
    let d := d.modify id fun s => { s with terminateSent := some w.now, endTag := text "requested" }
    let d := (d.sendTo w id (.terminate .terminated)).1
    use { d with registry := d.registry.setEnding id } id

/-- What a policy calls for. -/
def act (w : World) (a : Action) : Impl :=
  match d.find a.session with
  | none => d
  | some _ =>
    match a.kind with
    | .disconnectIdle => (d.sendTo w a.session (.disconnect a.connection errinfoIdleTimeout)).1
    | .terminateDisconnected =>
      let d := d.modify a.session fun s =>
        { s with terminateSent := some w.now, endTag := text "disconnected_timeout" }
      (d.sendTo w a.session (.terminate .disconnectedTimeout)).1

/-- A session from before the restart whose agent never came back; whoever
waits for it gets a session of their own. -/
def giveUp (w : World) (id : ℕ) : Impl :=
  match d.find id with
  | none => d
  | some s =>
    let d := d.modify id fun s => { s with reattachDeadline := none, waiting := none }
    let attach := (d.registry.find id).any (·.attached)
    let d := d.endSession id none
    match s.waiting with
    | none => d
    | some client => d.startSession w client s.account s.user attach false

/-- Ends a session that is still there. -/
def endFound (id : ℕ) : Impl := if (d.find id).isSome then d.endSession id none else d

def lost (now : Time) : List ℕ :=
  (d.live.filter fun s => s.reattachDeadline.any (· ≤ now)).map (·.id)

def silent (now : Time) : List ℕ :=
  (d.live.filter fun s => s.link.isSome && s.terminateSent.isNone && s.reattachDeadline.isNone &&
    s.lastHeard != 0 && decide (s.lastHeard + agentSilenceLimit < now)).map (·.id)

/-- The processes that have exited are reaped. -/
def reap (w : World) : Impl :=
  { d with live := d.live.map fun s => if s.process.any w.exited then { s with process := none } else s }

def overdue (w : World) : List ℕ :=
  d.live.flatMap fun s =>
    (if s.process.any w.exited ∧ s.link = none then [s.id] else []) ++
    (if s.link = none ∧ s.created + startTimeout < w.now ∨
        s.terminateSent.any fun t => t + terminateGrace < w.now then [s.id] else [])

/-- The sessions somebody asked to end through the control API. -/
def terminateRequested (w : World) : Impl :=
  d.terminations.foldl (fun d id => d.terminate w id) { d with terminations := [] }

/-- The [policy] timeouts. -/
def applyPolicies (w : World) : Impl :=
  (d.registry.due w.now).2.foldl (fun d a => d.act w a) { d with registry := (d.registry.due w.now).1 }

def giveUpLost (w : World) : Impl := (d.lost w.now).foldl (fun d id => d.giveUp w id) d

def endSilent (w : World) : Impl := (d.silent w.now).foldl (fun d id => d.endFound id) d

def endOverdue (w : World) : Impl := (d.overdue w).foldl (fun d id => d.endFound id) (d.reap w)

def tick (w : World) : Impl :=
  let d := (d.askTheSeat w).terminateRequested w
  let d := (d.expire w.now).settle w
  (((d.applyPolicies w).giveUpLost w).endSilent w).endOverdue w

/-- The first part of `shutdown`: sessions whose agent greeted stay. -/
def shutdown (w : World) : Impl :=
  let d := rememberSessions { d with seatGate := d.seatGate.releaseAll, shuttingDown := true }
  let unstarted := (d.live.filter fun s => ! (s.link.isSome && s.agent)).map (·.id)
  unstarted.foldl (fun d id =>
    if (d.find id).isSome then
      (d.modify id fun s => { s with terminateSent := some w.now, endTag := text "shutdown" }).endSession id none
    else d) d

/-- The last part of `shutdown`: sessions that did not end in time. -/
def close : Impl :=
  ((d.live.filter fun s => s.terminateSent.isSome).map (·.id)).reverse.foldl (fun d id => d.endFound id) d

/-- Somebody logs in at the machine. -/
def login (account : Text) : Impl :=
  { d with
    seatGate := (d.seatGate.begin account).1
    log := d.log ++ ((d.seatGate.begin account).2.map Entry.login).toList }

/-! ### Runs -/

inductive Event where
  | acceptClient
  | acceptAgent (uid : ℕ)
  /-- A client comes out of pre-authentication, or does not; its thread ends. -/
  | authenticated (client : Authenticated)
  | dropped (connection : ℕ)
  | threadEnded
  | launched (launched : Launched)
  | readUnclaimed (index : ℕ) (frames : List Frame) (isOpen : Bool)
  | readAgent (session : ℕ) (frames : List Frame) (isOpen : Bool)
  | tick
  /-- Somebody logs in at the machine; the login has its answer or gives up. -/
  | login (account : Text)
  | awaited (cookie : ℕ)
  | requestTerminate (session : ℕ)
  | shutdown
  | close

def step (w : World) : Event → Impl
  | .acceptClient => d.acceptClient
  | .acceptAgent uid => d.acceptAgent w uid
  | .authenticated client =>
    if client.id ∈ d.authenticating then
      handleAuthenticated { d with authenticating := d.authenticating.erase client.id } w client
    else d
  | .dropped connection => { d with authenticating := d.authenticating.erase connection }
  | .threadEnded => { d with clientThreads := d.clientThreads - 1 }
  | .launched launched => d.handleLaunched launched
  | .readUnclaimed index frames isOpen =>
    match d.unclaimed[index]? with
    | none => d
    | some peer =>
      let peer := { peer with inbox := peer.inbox ++ frames }
      if peer.since + helloTimeout < w.now ∨ isOpen = false then { d with unclaimed := d.unclaimed.eraseIdx index }
      else
        let read := d.readUnclaimed w peer
        if read.2 then { read.1 with unclaimed := read.1.unclaimed.eraseIdx index }
        else { read.1 with unclaimed := read.1.unclaimed.set index peer }
  | .readAgent session frames isOpen => d.readAgent w session frames isOpen
  | .tick => d.tick w
  | .login account => d.login account
  | .awaited cookie => { d with seatGate := (d.seatGate.awaited cookie).1 }
  | .requestTerminate session => { d with terminations := if session ∈ d.terminations then d.terminations
      else d.terminations ++ [session] }
  | .shutdown => d.shutdown w
  | .close => d.close

def run (es : List (World × Event)) : Impl := es.foldl (fun d e => d.step e.1 e.2) d

/-- A session of the table as a record, which waits for its agent. -/
def recovered (e : StoredSession) (serving : Option ℕ) : Live where
  id := e.id
  account := e.account
  token := e.token
  reattachToken := e.token
  gdm := e.gdm
  loginSession := e.loginSession
  unit := e.unit
  created := w.now
  reattachDeadline := some (w.now + reattachWindow)
  user := some ((w.lookupAccount e.account).getD ⟨e.account, e.uid⟩)
  serving := serving.map fun connection => ⟨connection, true⟩

/-- `recover_sessions`, with whom the agent of each session serves. -/
def recoverSessions (w : World) (table : List (StoredSession × Option ℕ)) : Impl :=
  table.foldl (fun d e =>
    if (w.lookupAccount e.1.account).any fun u => u.uid ≠ e.1.uid then d
    else
      { d with
        registry := d.registry.restore e.1.id e.1.account e.1.attached w.now
        live := d.live ++ [recovered w e.1 e.2] }) d

/-- A farlandd that has just started. -/
def start (options : Options) (w : World) (table : List (StoredSession × Option ℕ)) : Impl :=
  recoverSessions { options, registry := { policy := options.policy }, consent := { policy := options.policy } } w table

end Impl
end Daemon
end Farland
