/-
# The broker protocol

The messages between farlandd and the agent of a session (`broker.hpp`) and
the daemon's view of the order they may come in (`AgentLink`). What a socket
brings is a list of frames here, each already cut out of the stream: a
message, a frame that does not decode, or a length out of range.
-/
import Farland.Server.Privsep

namespace Farland
namespace Server
namespace Broker

def protocolVersion : ℕ := 6

/-- The secret of one agent. -/
abbrev Token := List.Vector UInt8 32

/-- The wiped token. -/
def Token.zero : Token := List.Vector.replicate 32 0

structure ConsentRequest where
  connectionId : ℕ
  user : Text
  peer : Text
  clientName : Text
  timeoutSeconds : ℕ := 30
  allowOnTimeout : Bool := true
  /-- Somebody logging in at the machine wants the session, not a client. -/
  fromSeat : Bool := false
  deriving DecidableEq

inductive ConsentAnswer where
  | allowed | denied | timedOut | unavailable
  deriving DecidableEq

inductive EndReason where
  | logout | desktopFailed | idleTimeout | disconnectedTimeout | terminated | error
  deriving DecidableEq

/-- The counters the policies read. -/
structure Stats where
  connectionId : ℕ := 0
  idleSeconds : ℕ := 0
  deriving DecidableEq

inductive Message where
  | hello (version : ℕ) (token : Token)
  | settings
  | newConnection (connectionId : ℕ) (negotiation : Negotiation) (password peer : Text) (elapsedMs : ℕ)
  | disconnect (connectionId errorInfo : ℕ)
  | consentRequest (request : ConsentRequest)
  | consentCancel (connectionId : ℕ)
  | consentReply (connectionId : ℕ) (answer : ConsentAnswer)
  | seatTakeover (allowed : Bool)
  | seatGreeter
  | sessionEnded (reason : EndReason) (detail : Text)
  | stats (stats : Stats)
  | terminate (reason : EndReason)
  deriving DecidableEq

/-- The connection number that `encode_body` asserts not to be 0. -/
def Message.names : Message → Option ℕ
  | .newConnection connectionId _ _ _ _ | .disconnect connectionId _ | .consentCancel connectionId
  | .consentReply connectionId _ => some connectionId
  | .consentRequest request => some request.connectionId
  | .hello _ _ | .settings | .seatTakeover _ | .seatGreeter | .sessionEnded _ _ | .stats _ | .terminate _ => none

/-- `may_send`, for the agent. -/
def Message.fromAgent : Message → Bool
  | .newConnection _ _ _ _ _ | .terminate _ | .settings | .consentRequest _ | .consentCancel _ | .seatTakeover _ =>
    false
  | .disconnect _ _ | .hello _ _ | .consentReply _ _ | .seatGreeter | .sessionEnded _ _ | .stats _ => true

/-- What `decode` can give: numbers are 64 bits wide, and 0 names no
connection. -/
def Message.decodable : Message → Bool
  | .stats s => s.connectionId < 2 ^ 64
  | m => match m.names with
    | some connectionId => connectionId ≠ 0 ∧ connectionId < 2 ^ 64
    | none => true

/-- One frame of the stream. -/
inductive Frame where
  /-- The length is out of range. -/
  | oversize
  /-- The frame does not decode. -/
  | garbled
  | message (m : Message)

/-- `decode_from(Sender::agent, frame, false)`. -/
def decodeFromAgent : Frame → Option Message
  | .message m => if m.decodable ∧ m.fromAgent then some m else none
  | .oversize | .garbled => none

/-- The order an agent's messages may come in. -/
structure AgentLink where
  expected : Token
  greeted : Bool := false
  ended : Bool := false
  deriving DecidableEq

namespace AgentLink

def receive (link : AgentLink) (frame : Frame) : AgentLink × Option Message :=
  if link.ended then (link, none)
  else
    match decodeFromAgent frame with
    | none => (link, none)
    | some (.hello version token) =>
      if link.greeted = false ∧ version = protocolVersion ∧ token = link.expected then
        ({ link with greeted := true }, some (.hello version token))
      else (link, none)
    | some m =>
      if link.greeted = false then (link, none)
      else ({ link with ended := match m with | .sessionEnded _ _ => true | _ => false }, some m)

end AgentLink
end Broker
end Server
end Farland
