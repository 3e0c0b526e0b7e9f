/-
# The CredSSP initiator

`credssp::Initiator`, the client's side, the mirror image of `Acceptor`: it
starts the mechanism, alone or as the last entry of a MechTypeList, binds to
the server's public key and delegates the credentials once the server has
proven that key.
-/
import Farland.Auth.Acceptor

namespace Farland
namespace Auth
namespace Credssp

open Spnego Handler Trace

structure InitiatorConfig (C : Type) where
  mechanism : C
  /-- Wrap the mechanism in SPNEGO or send raw tokens. -/
  useSpnego : Bool := true
  serverPublicKey : Bytes
  credentials : PasswordCredentials
  version : ℕ := maxVersion
  /-- The client nonce, drawn when the handshake starts. -/
  nonce : Nonce
  /-- Mechanisms ahead of `mechanism`, which are offered but cannot be run. -/
  preferredMechTypes : List Oid := []
  key_ne_nil : serverPublicKey ≠ []
  min_le_version : minVersion ≤ version

inductive ClientPhase where
  | negotiate
  /-- Our last token and MIC are out; waiting for the acceptor's MIC. -/
  | finalToken
  | pubKeyAuth
  | done
  deriving DecidableEq

structure Initiator (C W : Type) where
  trace : Trace C W
  status : Status := .inProgress
  phase : ClientPhase := .negotiate
  failure : String := ""
  serverError : Option ℕ := none
  output : Bytes := []
  remaining : Bytes := []
  version : ℕ
  serverVersion : ℕ := 0
  firstReply : Bool := true
  pendingFirstStep : Bool := false
  mechTypesDer : Bytes := []
  micRequired : Bool := false
  serverMicVerified : Bool := false

namespace Initiator

variable {C W α : Type}

abbrev Outcome (C W α : Type) := Handler String (Initiator C W) α

def log (a : Initiator C W) : List (Event C) := a.trace.log

def call (f : Trace C W → α × Trace C W) : Outcome C W α :=
  act fun a => ((f a.trace).1, { a with trace := (f a.trace).2 })

def orReject (what : String) (r : Result α) : Outcome C W α := orRefuse (describe what) r

def fail (reason : String) (a : Initiator C W) : Initiator C W :=
  { a with status := .failed, phase := .done, failure := reason }

def toTsCredentials (credentials : PasswordCredentials) : TsCredentials :=
  .password ⟨utf8ToUtf16le credentials.domain, utf8ToUtf16le credentials.user, utf8ToUtf16le credentials.password⟩

section Handlers

variable (env : Provider C W) (cfg : InitiatorConfig C)

/-- Queues a TSRequest in the version offered, with the nonce where the version in use has one. -/
def send (message : TsRequest) (a : Initiator C W) : Initiator C W :=
  let message := { message with
    version := cfg.version
    clientNonce := if 5 ≤ a.version then some cfg.nonce else message.clientNonce }
  { a with output := a.output ++ encodeTsRequest message, trace := a.trace.note (.sent message) }

/-- [MS-CSSP] 3.1.5 step 3: bind to the server's TLS public key. -/
def sendPubKeyAuth (message : TsRequest) : Outcome C W Unit := do
  let a ← get
  let wrapped ← call (wrap env cfg.mechanism (if 5 ≤ a.version then
    (clientToServerHash env.sha256 cfg.nonce cfg.serverPublicKey).toList else cfg.serverPublicKey))
  update fun a => { a with phase := .pubKeyAuth }
  update (send cfg { message with pubKeyAuth := some wrapped })

/-! ### The negotiation -/

def ownMic : Outcome C W (Option Bytes) := do
  let a ← get
  if a.micRequired then some <$> call (getMic env cfg.mechanism a.mechTypesDer) else pure none

def restart (mic : Option Bytes) : Outcome C W Unit := do
  let a ← get
  if mic ≠ none ∨ a.serverMicVerified = true then call (resetCipherState env cfg.mechanism) else pure ()

/-- The message with the mechanism's last token and our MIC, where there are any. -/
def lastMessage (token : Bytes) (mic : Option Bytes) : TsRequest :=
  if token ≠ [] ∨ mic ≠ none then
    { negoTokens := [encodeResp { responseToken := if token ≠ [] then some token else none, mechListMic := mic }] }
  else {}

/-- Once the mechanism is established, its last token goes out with pubKeyAuth; with a
mechListMIC exchange it carries our MIC instead, and pubKeyAuth waits for the acceptor's. -/
def sendStep (step : Step) : Outcome C W Unit :=
  if step.complete = false then
    update (send cfg { negoTokens := [if cfg.useSpnego then encodeResp { responseToken := some step.token }
      else step.token] })
  else if cfg.useSpnego = false then
    sendPubKeyAuth env cfg { negoTokens := if step.token ≠ [] then [step.token] else [] }
  else do
    let mic ← ownMic env cfg
    restart env cfg mic
    let a ← get
    if a.micRequired = true ∧ a.serverMicVerified = false then
      update fun a => { a with phase := .finalToken }
      update (send cfg (lastMessage step.token mic))
    else sendPubKeyAuth env cfg (lastMessage step.token mic)

def sendInit (mechTypes : List Oid) (token : Option Bytes) : Outcome C W Unit := do
  let init := makeNegTokenInit mechTypes token
  update fun a => { a with mechTypesDer := init.mechTypesDer }
  update (send cfg { negoTokens := [encodeInit init] })

/-- The list with our own mechanism last; the MICs are mandatory when it is not the first. -/
def mechTypes (w : W) : List Oid := cfg.preferredMechTypes ++ [env.mechanism cfg.mechanism w]

def start : Outcome C W Unit := do
  let a ← get
  let list := mechTypes env cfg a.trace.world
  if cfg.useSpnego = false then
    let answer ← call (step env cfg.mechanism [])
    let step ← orReject "security mechanism failed" answer
    sendStep env cfg step
  else if cfg.preferredMechTypes = [] then
    update fun a => { a with micRequired := list.length > 1 }
    let answer ← call (step env cfg.mechanism [])
    let step ← orReject "security mechanism failed" answer
    refuseIf (step.complete = true)
      "security mechanism completed without a round trip, which SPNEGO here does not support"
    sendInit cfg list (some step.token)
  else
    update fun a => { a with micRequired := list.length > 1, pendingFirstStep := true }
    sendInit cfg list none

variable (resp : NegTokenResp)

/-- supportedMech names the mechanism the acceptor selected. -/
def checkSupported : Outcome C W Unit := do
  let a ← get
  match resp.supportedMech with
  | some mech =>
    refuseIf (mech ≠ env.mechanism cfg.mechanism a.trace.world) "server selected a mechanism the initiator cannot run"
  | none => refuseIf (a.pendingFirstStep = true) "server did not select a mechanism"

/-- RFC 4178 4.2.2: what the first reply says. -/
def takeFirstReply : Outcome C W Unit := do
  let a ← get
  if a.firstReply then
    update fun a => { a with firstReply := false }
    refuseIf (resp.negState = none) "first NegTokenResp lacks negState"
    checkSupported env cfg resp
    update fun a => { a with micRequired := a.micRequired || resp.negState = some .requestMic }
  else pure ()

/-- The mechanism's next input: none for its first step, which waits for the selection. -/
def stepInput : Outcome C W Bytes := do
  let a ← get
  if a.pendingFirstStep then
    update fun a => { a with pendingFirstStep := false }
    refuseIf (resp.responseToken.getD [] ≠ []) "server sent a responseToken before the mechanism started"
    pure []
  else
    match resp.responseToken with
    | some token => pure token
    | none => refuse "NegTokenResp during negotiation lacks a responseToken"

/-- The input of the mechanism and the server's MIC. -/
def mechInput (token : Bytes) : Outcome C W (Bytes × Option Bytes) :=
  if cfg.useSpnego then do
    let next ← orReject "malformed SPNEGO token" (decode token)
    match next with
    | .init _ => refuse "server sent a NegTokenInit"
    | .resp resp =>
      refuseIf (resp.negState = some .reject) "server rejected the SPNEGO negotiation"
      takeFirstReply env cfg resp
      let input ← stepInput resp
      pure (input, resp.mechListMic)
  else pure (token, none)

/-- The server's MIC over our list. -/
def verifyMic (mic : Bytes) : Outcome C W Unit := do
  let a ← get
  let answer ← call (Trace.verifyMic env cfg.mechanism a.mechTypesDer mic)
  orReject "server mechListMIC does not verify" answer
  update fun a => { a with serverMicVerified := true }

/-- The acceptor finished first and sent its MIC along. -/
def takeMic (complete : Bool) : Option Bytes → Outcome C W Unit
  | some mic => if complete then verifyMic env cfg mic else pure ()
  | none => pure ()

variable (request : TsRequest)

def handleNegotiate : Outcome C W Unit := do
  refuseIf (request.negoTokens.length ≠ 1) "server reply during negotiation does not carry exactly one negoToken"
  let (input, mic) ← mechInput env cfg (request.negoTokens.headD [])
  let answer ← call (Trace.step env cfg.mechanism input)
  let step ← orReject "security mechanism failed" answer
  takeMic env cfg step.complete mic
  sendStep env cfg step

/-- RFC 4178 5: the acceptor's final token and its mechListMIC. -/
def handleFinalToken : Outcome C W Unit := do
  refuseIf (request.pubKeyAuth ≠ none ∨ request.negoTokens.length ≠ 1) "expected the acceptor's final SPNEGO token"
  let token ← orReject "malformed SPNEGO token" (decode (request.negoTokens.headD []))
  match token with
  | .init _ => refuse "server did not complete the SPNEGO negotiation"
  | .resp resp =>
    refuseIf (resp.negState ≠ some .acceptCompleted ∨ resp.responseToken.getD [] ≠ [])
      "server did not complete the SPNEGO negotiation"
    match resp.mechListMic with
    | none => refuse "server omitted the mechListMIC that RFC 4178 requires here"
    | some mic =>
      verifyMic env cfg mic
      call (Trace.resetCipherState env cfg.mechanism)
      sendPubKeyAuth env cfg {}

/-! ### Public keys and credentials -/

/-- A final SPNEGO token, alone or along with pubKeyAuth. -/
def takeFinalToken : Outcome C W Unit :=
  if request.negoTokens = [] then pure ()
  else do
    let a ← get
    refuseIf (cfg.useSpnego = false ∨ request.negoTokens.length ≠ 1)
      "unexpected negoToken after the security mechanism completed"
    let token ← orReject "malformed SPNEGO token" (decode (request.negoTokens.headD []))
    match token with
    | .init _ => refuse "server did not complete the SPNEGO negotiation"
    | .resp resp =>
      refuseIf (resp.negState.getD .acceptCompleted ≠ .acceptCompleted ∨ resp.responseToken.getD [] ≠ [])
        "server did not complete the SPNEGO negotiation"
      match resp.mechListMic with
      | none => pure ()
      | some mic => if a.serverMicVerified then pure () else verifyMic env cfg mic

/-- What the server's pubKeyAuth has to contain. -/
def expectedBinding (version : ℕ) : Bytes :=
  if 5 ≤ version then (serverToClientHash env.sha256 cfg.nonce cfg.serverPublicKey).toList
  else publicKeyPlusOne cfg.serverPublicKey

def handlePubKeyAuth : Outcome C W Unit := do
  takeFinalToken env cfg request
  match request.pubKeyAuth with
  | none => refuseIf (request.negoTokens = []) "server reply lacks pubKeyAuth"
  | some pubKeyAuth =>
    let a ← get
    refuseIf (a.micRequired = true ∧ a.serverMicVerified = false)
      "server omitted the mechListMIC that RFC 4178 requires here"
    let answer ← call (Trace.unwrap env cfg.mechanism pubKeyAuth)
    let plaintext ← orReject "server pubKeyAuth does not unwrap" answer
    refuseIf (plaintext ≠ expectedBinding env cfg a.version)
      "server pubKeyAuth does not match its TLS public key (possible man in the middle)"
    let wrapped ← call (Trace.wrap env cfg.mechanism (encodeTsCredentials (toTsCredentials cfg.credentials)))
    update fun a => { a with phase := .done, status := .succeeded }
    update (send cfg { authInfo := some wrapped })

/-! ### TSRequests -/

def agreeVersion : Outcome C W Unit := do
  let a ← get
  if a.serverVersion = 0 then
    refuseIf (request.version < minVersion)
      ("server offers CredSSP version " ++ toString request.version ++ ", below 2")
    update fun a => { a with serverVersion := request.version, version := min cfg.version request.version }
  else pure ()

def dispatch : Outcome C W Unit := do
  let a ← get
  match a.phase with
  | .negotiate => handleNegotiate env cfg request
  | .finalToken => handleFinalToken env cfg request
  | .pubKeyAuth => handlePubKeyAuth env cfg request
  | .done => refuse "TSRequest after the handshake ended"

def handle : Outcome C W Unit := do
  update fun a => { a with trace := a.trace.note (.received request) }
  match request.errorCode with
  | some code =>
    update fun a => { a with serverError := some code }
    refuse ("server reported NTSTATUS 0x" ++ Acceptor.hex8 code)
  | none =>
    agreeVersion cfg request
    dispatch env cfg request

/-- The handshake behind a handler; a refusal ends it. -/
def after (x : Outcome C W Unit) (a : Initiator C W) : Initiator C W :=
  match exec x a with
  | (.ok _, a') => a'
  | (.error reason, a') => a'.fail reason

def take (bytes : Bytes) (a : Initiator C W) : Initiator C W :=
  match decodeTsRequest bytes with
  | .error e => a.fail (describe "malformed TSRequest" e)
  | .ok request => after (handle env cfg request) a

def framing : Framing UInt8 (Initiator C W) Error where
  frame := frameTsRequest
  handle := take env cfg
  spoil := fun e a => a.fail (describe "malformed TSRequest" e)
  isOpen := fun a => a.status = .inProgress
  leave := fun a rest => if a.status = .succeeded then { a with remaining := rest } else a
  late := fun a bytes => if a.status = .succeeded then { a with remaining := a.remaining ++ bytes } else a

/-- The constructor: the first TSRequest is queued at once. -/
def new (w : W) : Framing.Buffered UInt8 (Initiator C W) :=
  ⟨after (start env cfg) { trace := { world := w }, version := cfg.version }, []⟩

def receive (b : Framing.Buffered UInt8 (Initiator C W)) (bytes : Bytes) : Framing.Buffered UInt8 (Initiator C W) :=
  (framing env cfg).receive b bytes

inductive Call where
  | receive (bytes : Bytes)
  | takeOutput
  | takeRemainingInput

def perform (b : Framing.Buffered UInt8 (Initiator C W)) : Call → Framing.Buffered UInt8 (Initiator C W)
  | .receive bytes => receive env cfg b bytes
  | .takeOutput => { b with session := { b.session with output := [] } }
  | .takeRemainingInput => { b with session := { b.session with remaining := [] } }

def run (w : W) (calls : List Call) : Framing.Buffered UInt8 (Initiator C W) :=
  calls.foldl (perform env cfg) (new env cfg w)

end Handlers

theorem framing_lawful (env : Provider C W) (cfg : InitiatorConfig C) : (framing env cfg).Lawful where
  pos := frameTsRequest_pos
  append := frameTsRequest_append
  error_append := frameTsRequest_error_append
  spoil_closed := by simp [framing, fail]
  leave_closed := by
    intro a rest h
    by_cases hs : a.status = .succeeded <;> simp_all [framing]
  late_closed := by
    intro a more h
    by_cases hs : a.status = .succeeded <;> simp_all [framing]
  late_spoil := by simp [framing, fail]
  late_leave := by
    intro a rest more _
    by_cases hs : a.status = .succeeded <;> simp [framing, hs]
  late_late := by
    intro a rest more _
    by_cases hs : a.status = .succeeded <;> simp [framing, hs]

end Initiator
end Credssp
end Auth
end Farland
