/-
# A conforming client and the joined system

The client side of dynamic virtual channels as a server may meet it: it
answers the Capabilities Request once and each Create Request once, with
either status and when it likes, sends the fragments of its messages and
Close on channels it holds open, drops a channel when the server closes it
and may answer that Close. `Emits` is one PDU it may send; how it lays the PDU
out in bytes is left open, as long as the server's decoder reads it.

`Joint` joins it with a `DvcServer` by one queue in each direction. The calls
of the server's caller, the delivery of a message and the client's sends are
the steps, in any order.
-/
import Farland.Channels.Drdynvc.Server

namespace Farland
namespace Channels
namespace Drdynvc

variable {D : Type}

/-! ### The client -/

/-- A message of which some fragments have left: what they carried and what is left. -/
structure Outgoing where
  done : List UInt8
  rest : List UInt8
  deriving DecidableEq

/-- What a channel id is to the client. -/
inductive Phase where
  | unknown
  /-- Its Create Request waits for the answer. -/
  | asked
  /-- Held open, with the message being sent. -/
  | held (out : Option Outgoing)
  /-- The server closed it before the client answered. -/
  | late
  | gone
  deriving DecidableEq

structure Client where
  capsAsked : Bool := false
  phase : ℕ → Phase := fun _ => .unknown
  /-- Closes of the server that may still be answered. -/
  replies : List ℕ := []

namespace Client

def setPhase (c : Client) (id : ℕ) (p : Phase) : Client := { c with phase := Function.update c.phase id p }

/-- Where a server's Close leaves a channel. -/
def dropped : Phase → Phase
  | .asked => .late
  | .unknown | .held _ | .late | .gone => .gone

/-- Takes one PDU from the server. -/
def receive (c : Client) : ServerPdu → Client
  | .capsRequest _ => { c with capsAsked := true }
  | .createRequest pdu => c.setPhase pdu.channelId .asked
  | .common (.close pdu) =>
    { c.setPhase pdu.channelId (dropped (c.phase pdu.channelId)) with replies := pdu.channelId :: c.replies }
  | _ => c

/-- The message in progress once `rest` is left of it. -/
def progress (done rest : List UInt8) : Option Outgoing := if rest = [] then none else some ⟨done, rest⟩

/-- The message that is complete once `rest` is left of it. -/
def completed (id : ℕ) (message rest : List UInt8) : List (ℕ × List UInt8) := if rest = [] then [(id, message)] else []

/-- `c.Emits fits pdu c' complete`: the client may send `pdu` and be `c'`
then, where `complete` is the message the PDU completes. `fits` says which
messages it may send on a channel. -/
inductive Emits (fits : ℕ → List UInt8 → Prop) (c : Client) : ClientPdu → Client → List (ℕ × List UInt8) → Prop
  | caps (version : ℕ) : c.capsAsked = true → 1 ≤ version →
      Emits fits c (.capsResponse ⟨version⟩) { c with capsAsked := false } []
  | accept (id : ℕ) (status : ℤ) : c.phase id = .asked → 0 ≤ status →
      Emits fits c (.createResponse ⟨id, status⟩) (c.setPhase id (.held none)) []
  | refuse (id : ℕ) (status : ℤ) : c.phase id = .asked → status < 0 →
      Emits fits c (.createResponse ⟨id, status⟩) (c.setPhase id .gone) []
  | answerLate (id : ℕ) (status : ℤ) : c.phase id = .late →
      Emits fits c (.createResponse ⟨id, status⟩) (c.setPhase id .gone) []
  | whole (id : ℕ) (message : List UInt8) : c.phase id = .held none → fits id message →
      Emits fits c (.common (.data ⟨id, message⟩)) c [(id, message)]
  | first (id : ℕ) (block rest : List UInt8) : c.phase id = .held none → fits id (block ++ rest) →
      Emits fits c (.common (.dataFirst ⟨id, (block ++ rest).length, block⟩))
        (c.setPhase id (.held (progress block rest))) (completed id block rest)
  | next (id : ℕ) (done block rest : List UInt8) : c.phase id = .held (some ⟨done, block ++ rest⟩) →
      Emits fits c (.common (.data ⟨id, block⟩))
        (c.setPhase id (.held (progress (done ++ block) rest))) (completed id (done ++ block) rest)
  | close (id : ℕ) (out : Option Outgoing) : c.phase id = .held out →
      Emits fits c (.common (.close ⟨id⟩)) (c.setPhase id .gone) []
  | reply (id : ℕ) : id ∈ c.replies →
      Emits fits c (.common (.close ⟨id⟩)) { c with replies := c.replies.erase id } []

end Client

/-! ### The joined system -/

/-- Server and client, the two queues between them, and what happened so far. -/
structure Joint (D : Type) where
  server : DvcServer D
  client : Client := {}
  toClient : List (List UInt8) := []
  toServer : List (List UInt8) := []
  /-- Events the caller has polled. -/
  polled : List DvcEvent := []
  /-- Messages the client has taken from its queue. -/
  seen : List (List UInt8) := []
  /-- Messages the server has taken from its queue. -/
  taken : List (List UInt8) := []
  /-- The ids that `open` returned. -/
  opened : List ℕ := []
  /-- The reassembly limit each channel was opened with. -/
  limit : ℕ → ℕ := fun _ => 0
  /-- The messages the client sent completely, by channel. -/
  sent : ℕ → List (List UInt8) := fun _ => []
  /-- The channels that either side closed. -/
  closed : List ℕ := []

namespace Joint

/-- Every event so far. -/
def events (j : Joint D) : List DvcEvent := j.polled ++ j.server.events

/-- What is on its way to the client. -/
def down (j : Joint D) : List (List UInt8) := j.toClient ++ j.server.output

/-- Every message that left the server. -/
def left (j : Joint D) : List (List UInt8) := j.seen ++ j.down

/-- The messages sent so far, after those that `complete` lists. -/
def sentAfter (sent : ℕ → List (List UInt8)) (complete : List (ℕ × List UInt8)) (id : ℕ) : List (List UInt8) :=
  sent id ++ complete.filterMap fun p => if p.1 = id then some p.2 else none

/-- The channels closed after the client sent a PDU. -/
def closedAfter (closed : List ℕ) : ClientPdu → List ℕ
  | .common (.close pdu) => pdu.channelId :: closed
  | _ => closed

/-- One step of the system; `fits limit message` says which messages the client may send. -/
inductive Step (fits : ℕ → List UInt8 → Prop) (j : Joint D) : Joint D → Prop
  | openChannel (name : List UInt8) (options : DvcChannelOptions) {id : ℕ} {s : DvcServer D} :
      j.server.open_ name options = some (id, s) →
      Step fits j { j with
        server := s, opened := j.opened ++ [id],
        limit := Function.update j.limit id (options.maxMessageSize.getD j.server.config.maxMessageSize) }
  | send (id : ℕ) (message : List UInt8) {ok : Bool} {s : DvcServer D} :
      j.server.send id message = some (ok, s) → Step fits j { j with server := s }
  | close (id : ℕ) :
      Step fits j { j with
        server := j.server.close id, closed := if id ∈ j.server.channels then id :: j.closed else j.closed }
  | takeOutput :
      Step fits j { j with server := j.server.takeOutput.2, toClient := j.toClient ++ j.server.takeOutput.1 }
  | pollEvent :
      Step fits j { j with server := j.server.pollEvent.2, polled := j.polled ++ j.server.pollEvent.1.toList }
  | serverReceive {m : List UInt8} {queue : List (List UInt8)} : j.toServer = m :: queue →
      Step fits j { j with server := (j.server.receive m).2, toServer := queue, taken := j.taken ++ [m] }
  | clientReceive {m : List UInt8} {queue : List (List UInt8)} {pdu : ServerPdu} : j.toClient = m :: queue →
      decodeServerPdu m = .ok pdu →
      Step fits j { j with client := j.client.receive pdu, toClient := queue, seen := j.seen ++ [m] }
  | clientSend {m : List UInt8} {pdu : ClientPdu} {c : Client} {complete : List (ℕ × List UInt8)} :
      j.client.Emits (fun id => fits (j.limit id)) pdu c complete → decodeClientPdu m = .ok pdu →
      Step fits j { j with
        client := c, toServer := j.toServer ++ [m], sent := sentAfter j.sent complete,
        closed := closedAfter j.closed pdu }

/-- The states of a run from a server that was just started. -/
inductive Reachable (fits : ℕ → List UInt8 → Prop) : Joint D → Prop
  | start {config : DvcServerConfig D} {s s' : DvcServer D} : DvcServer.create config = some s → s.start = some s' →
      Reachable fits { server := s' }
  | step {j j' : Joint D} : Reachable fits j → Step fits j j' → Reachable fits j'

end Joint

/-! ### What the two sides agree on -/

/-- An event that says how the open of `id` ended. -/
def DvcEvent.isOutcome (id : ℕ) : DvcEvent → Bool
  | .channelOpened i _ => i == id
  | .channelOpenFailed i _ _ => i == id
  | _ => false

/-- The message that an event delivers on `id`. -/
def DvcEvent.dataOf (id : ℕ) : DvcEvent → Option (List UInt8)
  | .channelData i data => if i = id then some data else none
  | _ => none

/-- What holds between the two sides in a state of the system. -/
structure Joint.Agreement (j : Joint D) : Prop where
  /-- The next message does not make `receive` fail, and none did. -/
  receives : ∀ m queue, j.toServer = m :: queue → (j.server.receive m).1 = .ok ()
  noError : j.server.error = none
  /-- No Create Request leaves before the Capabilities Response arrives. -/
  capsFirst : (∀ m ∈ j.taken, ∀ p, decodeClientPdu m ≠ .ok (.capsResponse p)) →
    ∀ m ∈ j.left, ∀ p, decodeServerPdu m ≠ .ok (.createRequest p)
  /-- Each open has an id of its own and at most one outcome. -/
  ids : j.opened.Nodup
  outcomes : ∀ id, j.events.countP (DvcEvent.isOutcome id) ≤ 1
  /-- What was delivered is a prefix of what was sent. -/
  delivered : ∀ id, j.events.filterMap (DvcEvent.dataOf id) <+: j.sent id
  /-- All of it has been, once it arrived, unless one side closed the channel. -/
  complete : ∀ id, id ∉ j.closed → j.toServer = [] → j.events.filterMap (DvcEvent.dataOf id) = j.sent id
  /-- With nothing on its way both sides have the same channels open. -/
  sameOpen : j.toServer = [] → j.down = [] →
    ∀ id, j.server.isOpen id = true ↔ ∃ out, j.client.phase id = .held out

end Drdynvc
end Channels
end Farland
