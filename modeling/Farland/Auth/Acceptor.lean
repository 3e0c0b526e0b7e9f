/-
# The CredSSP acceptor

`credssp::Acceptor`, the server's side of Network Level Authentication
([MS-CSSP] 3.1.5), as one handler for each member function. The buffers of
`receive` are those of `Framing`: a whole TSRequest at a time is decoded and
handled, a refusal ends the handshake.

The handshake does not depend on how the client's bytes are cut
(`framing_lawful`).
-/
import Farland.Auth.SecurityContext
import Farland.Lib.Framing

namespace Farland
namespace Auth
namespace Credssp

open Spnego Handler

structure AcceptorConfig (C W : Type) where
  /-- The TLS certificate's subjectPublicKey contents. -/
  serverPublicKey : Bytes
  /-- A context for the mechanism, or none when farland does not implement it. -/
  makeMechanism : Oid → W → Option C × W
  /-- Checks the delegated credentials against the identity and the mechanism. -/
  acceptCredentials : Option (PasswordCredentials → Identity → Oid → W → Bool × W) := none
  maxVersion : ℕ := Credssp.maxVersion
  key_ne_nil : serverPublicKey ≠ []
  min_le_max : minVersion ≤ maxVersion

/-- The phases behind the negotiation carry the established mechanism. -/
inductive Phase (C : Type) where
  | negotiate
  | pubKeyAuth (c : C)
  | credentials (c : C)
  | done
  deriving DecidableEq

structure Acceptor (C W : Type) where
  trace : Trace C W
  status : Status := .inProgress
  phase : Phase C := .negotiate
  failure : String := ""
  output : Bytes := []
  /-- What `take_output` has returned. -/
  handed : Bytes := []
  remaining : Bytes := []
  peerVersion : ℕ := 0
  version : ℕ := 0
  nonce : Option Nonce := none
  mech : Option C := none
  spnego : Bool := false
  mechTypesDer : Bytes := []
  micRequired : Bool := false
  clientMicVerified : Bool := false
  identity : Identity := {}
  credentials : Option PasswordCredentials := none

namespace Acceptor

variable {C W α : Type}

abbrev Outcome (C W α : Type) := Handler String (Acceptor C W) α

def log (a : Acceptor C W) : List (Event C) := a.trace.log

/-- A call that reads and changes the world. -/
def call (f : Trace C W → α × Trace C W) : Outcome C W α :=
  act fun a => ((f a.trace).1, { a with trace := (f a.trace).2 })

/-- The value of a call that may fail, or a refusal that names `what`. -/
def orReject (what : String) (r : Result α) : Outcome C W α := orRefuse (describe what) r

/-- Queues a TSRequest in the version in use. -/
def send (message : TsRequest) (a : Acceptor C W) : Acceptor C W :=
  { a with
    output := a.output ++ encodeTsRequest { message with version := a.version }
    trace := a.trace.note (.sent { message with version := a.version }) }

/-- An errorCode goes out in versions 3, 4 and 6, always the same. -/
def fail (reason : String) (a : Acceptor C W) : Acceptor C W :=
  let failed := { a with status := .failed, phase := .done, failure := reason, credentials := none }
  if a.version = 3 ∨ a.version = 4 ∨ a.version = 6 then send { errorCode := some statusLogonFailure } failed else failed

section Handlers

variable (env : Provider C W) (cfg : AcceptorConfig C W)

/-! ### Public keys and credentials -/

/-- What the client's pubKeyAuth has to contain and what ours answers. -/
def binding (version : ℕ) (nonce : Option Nonce) : Option (Bytes × Bytes) :=
  if 5 ≤ version then
    nonce.map fun n => ((clientToServerHash env.sha256 n cfg.serverPublicKey).toList,
      (serverToClientHash env.sha256 n cfg.serverPublicKey).toList)
  else some (cfg.serverPublicKey, publicKeyPlusOne cfg.serverPublicKey)

variable (c : C)

def answerPubKeyAuth (pubKeyAuth : Bytes) (negoToken : Option Bytes) : Outcome C W Unit := do
  let answer ← call (Trace.unwrap env c pubKeyAuth)
  let plaintext ← orReject "pubKeyAuth does not unwrap" answer
  let a ← get
  match binding env cfg a.version a.nonce with
  | none => refuse "CredSSP 5+ client sent pubKeyAuth without a clientNonce"
  | some (expected, answer) =>
    refuseIf (plaintext ≠ expected) ("pubKeyAuth does not match the TLS public key (man in the middle, or a client " ++
      "binding to another key)")
    let wrapped ← call (Trace.wrap env c answer)
    update fun a => { a with phase := .credentials c }
    update (send { negoTokens := negoToken.toList, pubKeyAuth := some wrapped })

/-- The client's MIC over its list. -/
def verifyMic (c : C) (mic : Bytes) : Outcome C W Unit := do
  let a ← get
  let answer ← call (Trace.verifyMic env c a.mechTypesDer mic)
  orReject "client mechListMIC does not verify" answer
  update fun a => { a with clientMicVerified := true }

variable (request : TsRequest)

/-- A mechListMIC that comes after the last token. -/
def takeLateMic : Outcome C W Unit :=
  if request.negoTokens = [] then pure ()
  else do
    let a ← get
    refuseIf (a.spnego = false ∨ request.negoTokens.length ≠ 1)
      "unexpected negoToken after the security mechanism completed"
    let token ← orReject "malformed SPNEGO token" (decode (request.negoTokens.headD []))
    match token with
    | .init _ => refuse "unexpected SPNEGO token after the security mechanism completed"
    | .resp resp =>
      refuseIf (resp.negState = some .reject ∨ resp.responseToken.getD [] ≠ [])
        "unexpected SPNEGO token after the security mechanism completed"
      match resp.mechListMic with
      | none => pure ()
      | some mic =>
        if a.clientMicVerified then pure ()
        else
          verifyMic env c mic
          call (Trace.resetCipherState env c)

def handlePubKeyAuth : Outcome C W Unit := do
  refuseIf (request.authInfo ≠ none) "client sent authInfo before public key authentication"
  takeLateMic env c request
  let a ← get
  refuseIf (a.micRequired = true ∧ a.clientMicVerified = false)
    "client omitted the mechListMIC that RFC 4178 requires here"
  match request.pubKeyAuth with
  | none => refuse "expected pubKeyAuth"
  | some pubKeyAuth => answerPubKeyAuth env cfg c pubKeyAuth none

/-- `accept_credentials`, where there is one. -/
def accepted (delegated : PasswordCredentials) : Outcome C W Bool :=
  match cfg.acceptCredentials with
  | none => pure true
  | some accept => call fun t =>
    let identity := env.identity c t.world
    let oid := env.mechanism c t.world
    let (answer, w) := accept delegated identity oid t.world
    (answer, t.record w (.asked delegated identity oid answer))

def handleCredentials : Outcome C W Unit :=
  match request.authInfo with
  | none => refuse "expected authInfo with the delegated credentials"
  | some authInfo => do
    let answer ← call (Trace.unwrap env c authInfo)
    let plaintext ← orReject "authInfo does not unwrap" answer
    let credentials ← orReject "malformed TSCredentials" (decodeTsCredentials plaintext)
    match credentials with
    | .smartCard _ =>
      refuse "client delegated smart-card credentials (TSSmartCardCreds), which farland does not support"
    | .remoteGuard _ => refuse ("client delegated Remote Credential Guard credentials (TSRemoteGuardCreds), which " ++
        "farland does not support")
    | .password creds =>
      let answer ← accepted env cfg c (toPasswordCredentials creds)
      refuseIf (answer = false) "delegated credentials rejected: they do not belong to the authenticated user"
      update fun a => { a with
        credentials := some (toPasswordCredentials creds)
        identity := env.identity c a.trace.world
        phase := .done
        status := .succeeded }

/-! ### The negotiation -/

/-- The client's MIC, when it came with the last token. -/
def checkMic (mechOutput : Bytes) (clientMic : Option Bytes) : Outcome C W Unit := do
  let a ← get
  match clientMic with
  | some mic => verifyMic env c mic
  | none =>
    refuseIf (a.micRequired = true ∧ mechOutput = []) "client omitted the mechListMIC that RFC 4178 requires here"

/-- Our MIC, where one is due. -/
def ownMic (clientMic : Option Bytes) (reply : NegTokenResp) : Outcome C W (Option Bytes) := do
  let a ← get
  if a.micRequired = true ∨ clientMic ≠ none then some <$> call (Trace.getMic env c a.mechTypesDer)
  else pure reply.mechListMic

/-- The first wrapped message starts from the cipher state the MICs started from. -/
def restart (mic : Option Bytes) : Outcome C W Unit := do
  let a ← get
  if mic ≠ none ∨ a.clientMicVerified = true then call (Trace.resetCipherState env c) else pure ()

/-- RFC 4178 5: the initiator's MIC is verified, then ours is made. -/
def finalResp (mechOutput : Bytes) (clientMic : Option Bytes) (reply : NegTokenResp) :
    Outcome C W NegTokenResp := do
  checkMic env c mechOutput clientMic
  let mic ← ownMic env c clientMic reply
  restart env c mic
  let a ← get
  pure { reply with
    mechListMic := mic
    negState := some (if a.micRequired = false ∨ a.clientMicVerified = true then .acceptCompleted
      else .acceptIncomplete)
    responseToken := if mechOutput ≠ [] then some mechOutput else reply.responseToken }

/-- The last negoToken, in SPNEGO or as it is. -/
def finalToken (mechOutput : Bytes) (clientMic : Option Bytes) (reply : NegTokenResp) :
    Outcome C W (Option Bytes) := do
  let a ← get
  if a.spnego then (some ∘ encodeResp) <$> finalResp env c mechOutput clientMic reply
  else pure (if mechOutput ≠ [] then some mechOutput else none)

/-- The mechanism is established; the client's last token may come with pubKeyAuth. -/
def finishNegotiation (mechOutput : Bytes) (clientMic : Option Bytes)
    (reply : NegTokenResp) : Outcome C W Unit := do
  let negoToken ← finalToken env c mechOutput clientMic reply
  update fun a => { a with phase := .pubKeyAuth c }
  match request.pubKeyAuth with
  | some pubKeyAuth => answerPubKeyAuth env cfg c pubKeyAuth negoToken
  | none =>
    match negoToken with
    | some token => update (send { negoTokens := [token] })
    | none => pure ()

/-- The first mechanism in the client's order that there is, with its place in the list. -/
def choose (cfg : AcceptorConfig C W) : ℕ → List Oid → Trace C W → Option (C × ℕ × Oid) × Trace C W
  | _, [], t => (none, t)
  | i, oid :: rest, t =>
    match cfg.makeMechanism oid t.world with
    | (some c, w) => (some (c, i, oid), t.record w (.chose i oid c))
    | (none, w) => choose cfg (i + 1) rest { t with world := w }

/-- The optimistic token of the client's first choice. -/
def optimistic (init : NegTokenInit) (request : TsRequest) (reply : NegTokenResp) : Outcome C W Unit :=
  match init.mechToken with
  | none => update (send { negoTokens := [encodeResp reply] })
  | some token => do
    let answer ← call (Trace.step env c token)
    let step ← orReject "security mechanism rejected the client" answer
    if step.complete then finishNegotiation env cfg c request step.token init.mechListMic reply
    else update (send { negoTokens := [encodeResp { reply with responseToken := some step.token }] })

/-- The acceptor's first reply. -/
def startSpnego (init : NegTokenInit) (request : TsRequest) : Outcome C W Unit := do
  update fun a => { a with mechTypesDer := init.mechTypesDer }
  let choice ← call (choose cfg 0 init.mechTypes)
  match choice with
  | none => refuse "client offers no security mechanism that farland supports"
  | some (c, chosen, oid) =>
    update fun a => { a with mech := some c }
    if chosen ≠ 0 then
      -- the optimistic token belongs to the first choice and is dropped
      update fun a => { a with micRequired := true }
      update (send { negoTokens := [encodeResp { supportedMech := some oid, negState := some .requestMic }] })
    else optimistic env cfg c init request { supportedMech := some oid, negState := some .acceptIncomplete }

/-- The mechanism's token and the mechListMIC of the client's next message. -/
def mechInput (token : Bytes) : Outcome C W (Bytes × Option Bytes) := do
  let a ← get
  if a.spnego then
    let next ← orReject "malformed SPNEGO token" (decode token)
    match next with
    | .init _ => refuse "client sent a second NegTokenInit"
    | .resp resp =>
      refuseIf (resp.negState = some .reject) "client rejected the SPNEGO negotiation"
      match resp.responseToken with
      | none => refuse "NegTokenResp during negotiation lacks a responseToken"
      | some input => pure (input, resp.mechListMic)
  else pure (token, none)

/-- The mechanism's token, in SPNEGO or as it is. -/
def sendToken (step : Step) : Outcome C W Unit := do
  let a ← get
  update (send { negoTokens := [if a.spnego then
    encodeResp { negState := some .acceptIncomplete, responseToken := some step.token } else step.token] })

/-- The next step of the mechanism. -/
def negotiate (token : Bytes) (request : TsRequest) : Outcome C W Unit := do
  let (input, mic) ← mechInput token
  let answer ← call (Trace.step env c input)
  let step ← orReject "security mechanism rejected the client" answer
  if step.complete then finishNegotiation env cfg c request step.token mic {}
  else sendToken step

/-- The client's first token: SPNEGO, or a raw NTLM message. -/
def firstToken (token : Bytes) (request : TsRequest) : Outcome C W Unit :=
  if isRawNtlm token = false then do
    let decoded ← orReject "malformed SPNEGO token" (decode token)
    match decoded with
    | .resp _ => refuse "first SPNEGO token is not a NegTokenInit"
    | .init init =>
      update fun a => { a with spnego := true }
      startSpnego env cfg init request
  else do
    let choice ← call (choose cfg 0 [ntlmOid])
    match choice with
    | none => refuse "client sent a raw NTLM token, but NTLM is not available"
    | some (c, _, _) =>
      update fun a => { a with mech := some c }
      negotiate env cfg c token request

def handleNegotiate : Outcome C W Unit := do
  refuseIf (request.negoTokens.length ≠ 1) "TSRequest during negotiation does not carry exactly one negoToken"
  refuseIf (request.authInfo ≠ none) "client sent authInfo before public key authentication"
  let a ← get
  match a.mech with
  | none => firstToken env cfg (request.negoTokens.headD []) request
  | some c => negotiate env cfg c (request.negoTokens.headD []) request

/-! ### TSRequests -/

/-- `{:08X}`. -/
def hex8 (n : ℕ) : String :=
  (String.ofList ((List.range 8).map fun i => Nat.digitChar (n >>> (4 * (7 - i)) % 16))).toUpper

/-- A higher version than ours is treated as ours; the client's does not change. -/
def agreeVersion : Outcome C W Unit := do
  let a ← get
  if a.peerVersion = 0 then
    refuseIf (request.version < minVersion)
      ("client offers CredSSP version " ++ toString request.version ++ ", below 2")
    update fun a => { a with peerVersion := request.version, version := min request.version cfg.maxVersion }
  else
    refuseIf (request.version ≠ a.peerVersion) ("client changed its CredSSP version from " ++ toString a.peerVersion ++
      " to " ++ toString request.version)

def dispatch : Outcome C W Unit := do
  let a ← get
  match a.phase with
  | .negotiate => handleNegotiate env cfg request
  | .pubKeyAuth c => handlePubKeyAuth env cfg c request
  | .credentials c => handleCredentials env cfg c request
  | .done => refuse "TSRequest after the handshake ended"

def handle : Outcome C W Unit := do
  update fun a => { a with trace := a.trace.note (.received request) }
  agreeVersion cfg request
  match request.errorCode with
  | some code => refuse ("client sent errorCode 0x" ++ hex8 code)
  | none =>
    update fun a => { a with nonce := request.clientNonce <|> a.nonce }
    dispatch env cfg request

/-- The handshake after a TSRequest; a refusal ends it. -/
def step (a : Acceptor C W) : Acceptor C W :=
  match exec (handle env cfg request) a with
  | (.ok _, a') => a'
  | (.error reason, a') => a'.fail reason

/-- One framed TSRequest. -/
def take (bytes : Bytes) (a : Acceptor C W) : Acceptor C W :=
  match decodeTsRequest bytes with
  | .error e => a.fail (describe "malformed TSRequest" e)
  | .ok request => step env cfg request a

/-- The loop of `receive`: unread input goes to `remaining` when the handshake has succeeded. -/
def framing : Framing UInt8 (Acceptor C W) Error where
  frame := frameTsRequest
  handle := take env cfg
  spoil := fun e a => a.fail (describe "malformed TSRequest" e)
  isOpen := fun a => a.status = .inProgress
  leave := fun a rest => if a.status = .succeeded then { a with remaining := rest } else a
  late := fun a bytes => if a.status = .succeeded then { a with remaining := a.remaining ++ bytes } else a

/-- The handshake in front of the client's first byte. -/
def new (w : W) : Framing.Buffered UInt8 (Acceptor C W) := ⟨{ trace := { world := w } }, []⟩

def receive (b : Framing.Buffered UInt8 (Acceptor C W)) (bytes : Bytes) : Framing.Buffered UInt8 (Acceptor C W) :=
  (framing env cfg).receive b bytes

end Handlers

/-! ### The member functions -/

/-- What the owner of the handshake calls. -/
inductive Call where
  | receive (bytes : Bytes)
  | takeOutput
  | takeRemainingInput
  | takeCredentials

variable (env : Provider C W) (cfg : AcceptorConfig C W)

def perform (b : Framing.Buffered UInt8 (Acceptor C W)) :
    Call → Framing.Buffered UInt8 (Acceptor C W)
  | .receive bytes => receive env cfg b bytes
  | .takeOutput =>
    { b with session := { b.session with output := [], handed := b.session.handed ++ b.session.output } }
  | .takeRemainingInput => { b with session := { b.session with remaining := [] } }
  | .takeCredentials => { b with session := { b.session with credentials := none } }

def run (w : W) (calls : List Call) :
    Framing.Buffered UInt8 (Acceptor C W) := calls.foldl (perform env cfg) (new w)

/-! ### The cuts of the stream -/

@[simp] theorem send_status (m : TsRequest) (a : Acceptor C W) : (send m a).status = a.status := rfl

@[simp] theorem fail_status (reason : String) (a : Acceptor C W) : (a.fail reason).status = .failed := by
  unfold fail
  by_cases hv : a.version = 3 ∨ a.version = 4 ∨ a.version = 6
  · rw [if_pos hv, send_status]
  · rw [if_neg hv]

theorem framing_lawful : (framing env cfg).Lawful where
  pos := frameTsRequest_pos
  append := frameTsRequest_append
  error_append := frameTsRequest_error_append
  spoil_closed := by simp [framing]
  leave_closed := by
    intro a rest h
    by_cases hs : a.status = .succeeded <;> simp_all [framing]
  late_closed := by
    intro a more h
    by_cases hs : a.status = .succeeded <;> simp_all [framing]
  late_spoil := by simp [framing]
  late_leave := by
    intro a rest more _
    by_cases hs : a.status = .succeeded <;> simp [framing, hs]
  late_late := by
    intro a rest more _
    by_cases hs : a.status = .succeeded <;> simp [framing, hs]

/-- Nothing happens before the first byte. -/
theorem receive_new (w : W) : receive env cfg (new w) [] = new w := rfl

end Acceptor
end Credssp
end Auth
end Farland
