/-
# Pre-authentication

Everything that happens before a client is known (`server/preauth.cpp`): the
choice of a security protocol, the switch to TLS and, where NLA was chosen,
the handshake of an acceptor. The acceptor is any state machine with the
member functions of `auth::NlaAcceptor`; the factory is the state it makes one
in. `none` stands for a call of a factory that is not there.

`log` is what comes in and what goes out, newest first. Taking the output or
polling an event takes from the front of it, and nothing reads it.
-/
import Farland.Auth.SecurityContext
import Farland.Proto.Negotiation
import Farland.Server.Privsep

namespace Farland
namespace Server

open Auth.Credssp (Status PasswordCredentials)
open Proto

/-- `auth::NlaAcceptor`. -/
structure NlaAcceptor (N : Type) where
  receive : List UInt8 → N → N
  takeOutput : N → List UInt8 × N
  status : N → Status
  /-- Bytes that arrived after the handshake. -/
  takeRemainingInput : N → List UInt8 × N
  identity : N → Identity
  takeCredentials : N → Option PasswordCredentials × N
  failureReason : N → String

structure PreAuthConfig where
  supportedProtocols : ℕ := Protocol.ssl ||| Protocol.hybrid ||| Protocol.hybridEx
  requireNla : Bool := true
  advertiseGfx : Bool := false
  deriving DecidableEq

inductive PreAuthEvent where
  | startTls
  | authenticated (identity : Identity) (credentials : Option PasswordCredentials)
  | ready
  | failed (reason : String)
  deriving DecidableEq

inductive PreAuthEntry where
  | received (bytes : List UInt8)
  | tlsEstablished
  | sent (bytes : List UInt8)
  | event (event : PreAuthEvent)
  deriving DecidableEq

inductive PreAuthState (N : Type) where
  | waitConnectionRequest
  | waitTls
  | nla (acceptor : N)
  | ready
  | failed

structure PreAuth (N : Type) where
  config : PreAuthConfig
  makeNla : Option N
  state : PreAuthState N := .waitConnectionRequest
  negotiation : Negotiation := ⟨[], 0, 0, none⟩
  input : List UInt8 := []
  log : List PreAuthEntry := []

namespace PreAuth

/-- A Connection Request is at most a TPKT around a TPDU of 255 bytes. -/
def maxConnectionRequest : ℕ := 4 + 255

def nlaProtocols : ℕ := Protocol.hybrid ||| Protocol.hybridEx

/-- The 32 bits of a set of protocols but those of NLA. -/
def withoutNla (protocols : ℕ) : ℕ := protocols &&& 0xFFFFFFF5

/-- `early_auth::success`. -/
def earlyAuthSuccess : ℕ := 0

def hex (n : ℕ) : String := String.ofList (Nat.toDigits 16 n)

variable {N : Type} (config : PreAuthConfig)

def create (makeNla : Option N) : PreAuth N where
  config :=
    if makeNla.isNone then { config with supportedProtocols := withoutNla config.supportedProtocols } else config
  makeNla := makeNla

variable (p : PreAuth N)

def note (entry : PreAuthEntry) : PreAuth N := { p with log := entry :: p.log }

def fail (reason : String) : PreAuth N := { p with state := .failed }.note (.event (.failed reason))

def finish : PreAuth N := { p with state := .ready }.note (.event .ready)

/-! ### The Connection Request -/

/-- The strongest protocol that both sides can. -/
def select (requested : ℕ) : Option ℕ :=
  let usable := requested &&& config.supportedProtocols
  if usable &&& Protocol.hybridEx ≠ 0 then some Protocol.hybridEx
  else if usable &&& Protocol.hybrid ≠ 0 then some Protocol.hybrid
  else if config.requireNla = false ∧ usable &&& Protocol.ssl ≠ 0 then some Protocol.ssl
  else none

def responseFlags : ℕ :=
  extendedClientDataSupported ||| if config.advertiseGfx then dynvcGfxProtocolSupported else 0

def refusal : NegotiationFailureCode :=
  if config.supportedProtocols &&& nlaProtocols ≠ 0 ∧ config.requireNla then .hybridRequiredByServer
  else .sslRequiredByServer

/-- The client can do these protocols. -/
def negotiate (requested : ℕ) : Option (PreAuth N) :=
  match select p.config requested with
  | some selected => do
    let confirm ← encodeConnectionConfirm (.response ⟨responseFlags p.config, selected⟩)
    let negotiation := { p.negotiation with requestedProtocols := requested, selectedProtocol := selected }
    some (({ p with negotiation, state := .waitTls }.note (.sent confirm)).note (.event .startTls))
  | none => do
    let confirm ← encodeConnectionConfirm (.failure (refusal p.config).value)
    let negotiation := { p.negotiation with requestedProtocols := requested }
    some (({ p with negotiation }.note (.sent confirm)).fail
      ("client requested protocols 0x" ++ hex requested ++ ", none of which this server accepts"))

/-- The Connection Request in a packet. -/
def decodeRequest (packet : List UInt8) : Result ConnectionRequest := do
  let (tpdu, _) ← readTpkt ⟨packet, 0⟩
  let code ← peekTpduCode tpdu
  if code ≠ .connectionRequest then
    Farland.fail .invalidValue "expected an X.224 Connection Request" tpdu.offset
  else
    let (request, _) ← decodeConnectionRequest tpdu
    pure request

def onConnectionRequest (packet : List UInt8) : Option (PreAuth N) :=
  match decodeRequest packet with
  | .error e => some (p.fail e.message)
  | .ok request =>
    let p := { p with negotiation := { p.negotiation with cookie := request.cookie } }
    match request.negotiation with
    | none => some
      (p.fail "client does not negotiate a security protocol (Standard RDP Security is not supported)")
    | some n => p.negotiate n.requestedProtocols

/-- Bytes in front of the Connection Confirm. -/
def receiveRequest (bytes : List UInt8) : Option (PreAuth N) :=
  let input := p.input ++ bytes
  let waiting := { p with input }
  match peekFrame input with
  | .error e => some (waiting.fail e.message)
  | .ok none => some waiting
  | .ok (some header) =>
    if header.kind ≠ .tpkt ∨ header.length > maxConnectionRequest then
      some (waiting.fail "expected an X.224 Connection Request")
    else if input.length < header.length then some waiting
    -- the client must wait for the Connection Confirm before TLS starts
    else if input.length > header.length then
      some (waiting.fail "client data after the X.224 Connection Request")
    else { p with input := [] }.onConnectionRequest input

/-! ### TLS and NLA -/

variable (A : NlaAcceptor N)

/-- The Early User Authorization Result, for HYBRID_EX. -/
def earlyResult (negotiation : Negotiation) : List PreAuthEntry :=
  if negotiation.selectedProtocol = Protocol.hybridEx then [.sent (Writer.u32le earlyAuthSuccess)] else []

/-- The acceptor knows the client. -/
def succeed (acceptor : N) : PreAuth N :=
  let credentials := A.takeCredentials acceptor
  { p with
    negotiation := { p.negotiation with identity := some (A.identity acceptor) }
    input := (A.takeRemainingInput credentials.2).1
    log := earlyResult p.negotiation ++
      PreAuthEntry.event (.authenticated (A.identity acceptor) credentials.1) :: p.log }.finish

/-- After every call of the acceptor: its output, and what came of it. -/
def pumpNla (acceptor : N) : PreAuth N :=
  let taken := A.takeOutput acceptor
  let p := p.note (.sent taken.1)
  match A.status taken.2 with
  | .inProgress => { p with state := .nla taken.2 }
  | .failed => p.fail ("NLA failed: " ++ A.failureReason taken.2)
  | .succeeded => p.succeed A taken.2

def tlsEstablished : Option (PreAuth N) :=
  match p.state with
  | .waitTls =>
    if p.negotiation.selectedProtocol = Protocol.ssl then some p.finish
    else match p.makeNla with
      | none => none
      | some acceptor => some (p.pumpNla A acceptor)
  | .waitConnectionRequest | .nla _ | .ready | .failed => some (p.fail "TLS established in the wrong state")

def receive (p : PreAuth N) (bytes : List UInt8) : Option (PreAuth N) :=
  match p.state with
  | .waitConnectionRequest => p.receiveRequest bytes
  | .waitTls => some (p.fail "client data before the TLS handshake completed")
  | .nla acceptor => some (p.pumpNla A (A.receive bytes acceptor))
  -- held until the caller moves the stream over to its connection
  | .ready => some { p with input := p.input ++ bytes }
  | .failed => some p

/-- The bytes that followed pre-authentication. -/
def takeRemainingInput : List UInt8 × PreAuth N := (p.input, { p with input := [] })

/-- What the transport does. -/
inductive Call where
  | receive (bytes : List UInt8)
  | tlsEstablished
  deriving DecidableEq

def perform : Call → Option (PreAuth N)
  | .receive bytes => (p.note (.received bytes)).receive A bytes
  | .tlsEstablished => (p.note .tlsEstablished).tlsEstablished A

def run (p : PreAuth N) : List Call → Option (PreAuth N)
  | [] => some p
  | call :: calls => (p.perform A call).bind fun p => p.run calls

end PreAuth
end Server
end Farland
