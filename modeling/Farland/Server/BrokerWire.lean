/-
# The broker messages as bytes

`encode` and `decode` of `broker.cpp`: a u32le length of what follows, a u8
message type, then the fields. As on the privsep channel `encode` asserts the
limits, so it is partial (`none` is a failed assertion), and `decode` refuses
what they exclude. The two protocols carry the same negotiation under other
limits: a cookie may have 1024 bytes there and 256 here, a password 1024 there
and 512 here, and only here may no NLA user be without a name.
-/
import Farland.Server.Broker

namespace Farland
namespace Server
namespace Broker
namespace Wire

open Reader Privsep

/-! ### Messages -/

/-- Bytes of the length in front of a message. -/
def lengthPrefix : ℕ := 4
/-- Peer, X.224 cookie, client name. -/
def maxShortString : ℕ := 256
/-- User, domain, detail. -/
def maxLongString : ℕ := 1024
/-- Largest message either side accepts, without the prefix. -/
def maxMessageSize : ℕ := 64 * 1024
/-- Client bytes read off the plaintext socket before the handover. -/
def maxPendingInput : ℕ := 32 * 1024
/-- [MS-RDPBCGR] 2.2.1.3.6. -/
def maxMonitors : ℕ := 16
/-- Library name or device path. -/
def maxSettingsPath : ℕ := 1024
/-- [MS-CSSP] leaves no limit. -/
def maxPassword : ℕ := 512
/-- Frame rates of Settings. -/
def minFramesPerSecond : ℕ := 1
def maxFramesPerSecond : ℕ := 240
/-- Activation timeouts of Settings. -/
def minActivationSeconds : ℕ := 5
def maxActivationSeconds : ℕ := 3600
/-- Timeouts of ConsentRequest. -/
def minConsentSeconds : ℕ := 1
def maxConsentSeconds : ℕ := 3600
/-- `video::max_bitrate_kbps`. -/
def maxBitrateKbps : ℕ := 1000000

inductive BitmapCodec where
  | planar | uncompressed
  deriving DecidableEq

inductive TileCodec where
  | progressive | planar | avc420 | avc444
  deriving DecidableEq

inductive Backend where
  | openh264 | x264 | vaapi | nvenc
  deriving DecidableEq

inductive AutoDetectMode where
  | off | continuous | full
  deriving DecidableEq

/-- Codecs, channels and timeouts for every connection of the session, with the
defaults of farland-server. -/
structure Settings where
  framesPerSecond : ℕ := 30
  h264BitrateKbps : ℕ := 0
  h264MinBitrateKbps : ℕ := 300
  h264MaxBitrateKbps : ℕ := 0
  bitmapCodec : BitmapCodec := .planar
  gfxCodec : TileCodec := .progressive
  /-- None: try the backends this build has. -/
  h264Backend : Option Backend := none
  openh264Library : Text := []
  renderNode : Text := []
  zeroCopy : Bool := true
  clearcodec : Bool := true
  refine : Bool := true
  videoRegions : Bool := true
  losslessStill : Bool := true
  audio : Bool := true
  microphone : Bool := true
  camera : Bool := true
  clipboard : Bool := true
  autodetect : AutoDetectMode := .full
  activationSeconds : ℕ := 60
  deriving DecidableEq

/-- Inclusive virtual desktop coordinates. -/
structure Monitor where
  left : ℤ := 0
  top : ℤ := 0
  right : ℤ := 0
  bottom : ℤ := 0
  primary : Bool := false
  deriving DecidableEq

/-- What the session needs from the Conference Create Request. -/
structure ClientSummary where
  desktopWidth : ℕ := 0
  desktopHeight : ℕ := 0
  monitors : List Monitor := []
  keyboardLayout : ℕ := 0
  keyboardType : ℕ := 0
  keyboardSubtype : ℕ := 0
  clientBuild : ℕ := 0
  clientName : Text := []
  desktopScaleFactor : Option ℕ := none
  deriving DecidableEq

/-- ARC_CS_PRIVATE_PACKET. -/
structure ReconnectCookie where
  logonId : ℕ := 0
  securityVerifier : List.Vector UInt8 16 := .replicate 16 0
  deriving DecidableEq

/-- A client for this session; the plaintext socket comes with it. -/
structure NewConnection where
  connectionId : ℕ
  negotiation : Negotiation
  password : Text := []
  peer : Text := []
  elapsedMs : ℕ := 0
  client : Option ClientSummary := none
  autoReconnect : Option ReconnectCookie := none
  pendingInput : List UInt8 := []
  deriving DecidableEq

/-- All the counters. -/
structure Stats where
  connectionId : ℕ := 0
  sessionSeconds : ℕ := 0
  idleSeconds : ℕ := 0
  desktopWidth : ℕ := 0
  desktopHeight : ℕ := 0
  framesSent : ℕ := 0
  bytesSent : ℕ := 0
  bytesReceived : ℕ := 0
  rttMs : ℕ := 0
  bandwidthKbps : ℕ := 0
  deriving DecidableEq

/-- Every message, with all its fields. -/
inductive Message where
  | hello (version : ℕ) (token : Token)
  | settings (settings : Settings)
  | newConnection (message : NewConnection)
  | disconnect (connectionId errorInfo : ℕ)
  | consentRequest (request : ConsentRequest)
  | consentCancel (connectionId : ℕ)
  | consentReply (connectionId : ℕ) (answer : ConsentAnswer)
  | seatTakeover (allowed : Bool)
  | seatGreeter
  | sessionEnded (reason : EndReason) (detail : Text)
  | stats (stats : Stats)
  | terminate (reason : EndReason)
  deriving DecidableEq

/-- The ends of the link. -/
inductive Sender where
  | daemon | agent
  deriving DecidableEq

/-! ### Numbers of the enumerations -/

/-- A codec as its byte. -/
def BitmapCodec.code : BitmapCodec → ℕ
  | .planar => 0 | .uncompressed => 1

def BitmapCodec.ofCode : ℕ → Option BitmapCodec
  | 0 => some .planar | 1 => some .uncompressed | _ => none

def TileCodec.code : TileCodec → ℕ
  | .progressive => 0 | .planar => 1 | .avc420 => 2 | .avc444 => 3

def TileCodec.ofCode : ℕ → Option TileCodec
  | 0 => some .progressive | 1 => some .planar | 2 => some .avc420 | 3 => some .avc444 | _ => none

def Backend.code : Backend → ℕ
  | .openh264 => 0 | .x264 => 1 | .vaapi => 2 | .nvenc => 3

def Backend.ofCode : ℕ → Option Backend
  | 0 => some .openh264 | 1 => some .x264 | 2 => some .vaapi | 3 => some .nvenc | _ => none

def AutoDetectMode.code : AutoDetectMode → ℕ
  | .off => 0 | .continuous => 1 | .full => 2

def AutoDetectMode.ofCode : ℕ → Option AutoDetectMode
  | 0 => some .off | 1 => some .continuous | 2 => some .full | _ => none

/-- The values of `ConsentAnswer`. -/
def answerCode : ConsentAnswer → ℕ
  | .allowed => 1 | .denied => 2 | .timedOut => 3 | .unavailable => 4

def answerOfCode : ℕ → Option ConsentAnswer
  | 1 => some .allowed | 2 => some .denied | 3 => some .timedOut | 4 => some .unavailable | _ => none

/-- The values of `EndReason`. -/
def reasonCode : EndReason → ℕ
  | .logout => 1 | .desktopFailed => 2 | .idleTimeout => 3 | .disconnectedTimeout => 4 | .terminated => 5 | .error => 6

def reasonOfCode : ℕ → Option EndReason
  | 1 => some .logout | 2 => some .desktopFailed | 3 => some .idleTimeout | 4 => some .disconnectedTimeout
  | 5 => some .terminated | 6 => some .error | _ => none

/-- `proto::protocol`, [MS-RDPBCGR] 2.2.1.1.1. -/
def protocolRdp : ℕ := 0x00000000
def protocolSsl : ℕ := 0x00000001

/-- What X.224 may have selected. -/
def knownProtocol (protocol : ℕ) : Bool := protocol == protocolRdp || protocol == protocolSsl || isNla protocol

/-! ### Writing -/

/-- A length of 16 bits and UTF-8. -/
def writeString (t : Text) (max : ℕ) : Option (List UInt8) := do
  asserts (t.length ≤ max)
  pure (Writer.u16le t.length ++ t)

/-- User and domain; presence is told before. -/
def writeIdentity : Option Identity → Option (List UInt8)
  | some i => do
    let user ← writeString i.user maxLongString
    let domain ← writeString i.domain maxLongString
    pure (user ++ domain)
  | none => pure []

/-- The X.224 result and the NLA identity. -/
def writeNegotiation (n : Negotiation) : Option (List UInt8) := do
  let cookie ← writeString n.cookie maxShortString
  let identity ← writeIdentity n.identity
  pure (cookie ++ (Writer.u32le n.requestedProtocols ++ (Writer.u32le n.selectedProtocol ++
    (writeFlag n.identity.isSome ++ identity))))

/-- Two's complement. -/
def writeI32 (v : ℤ) : List UInt8 := Writer.u32le (toUnsigned 32 v)

/-- The rectangle and the primary flag. -/
def writeMonitor (m : Monitor) : List UInt8 :=
  writeI32 m.left ++ (writeI32 m.top ++ (writeI32 m.right ++ (writeI32 m.bottom ++ writeFlag m.primary)))

/-- The value of an optional field, behind its presence byte. -/
def writeOptional {α : Type} (write : α → List UInt8) : Option α → List UInt8
  | some a => writeFlag true ++ write a
  | none => writeFlag false

/-- The name before the monitors. -/
def writeClient (c : ClientSummary) : Option (List UInt8) := do
  asserts (c.monitors.length ≤ maxMonitors)
  let name ← writeString c.clientName maxShortString
  pure (Writer.u16le c.desktopWidth ++ (Writer.u16le c.desktopHeight ++ (Writer.u32le c.keyboardLayout ++
    (Writer.u32le c.keyboardType ++ (Writer.u32le c.keyboardSubtype ++ (Writer.u32le c.clientBuild ++ (name ++
    (writeOptional Writer.u32le c.desktopScaleFactor ++ (Writer.u8 c.monitors.length ++
    c.monitors.flatMap writeMonitor)))))))))

/-- The optional summary, which has limits of its own. -/
def writePresent : Option ClientSummary → Option (List UInt8)
  | some c => do
    let summary ← writeClient c
    pure (writeFlag true ++ summary)
  | none => pure (writeFlag false)

/-- The logon id and the verifier. -/
def writeCookie (c : ReconnectCookie) : List UInt8 := Writer.u32le c.logonId ++ c.securityVerifier.toList

variable (m : Settings)

/-- The flags in wire order. -/
def Settings.flags : List Bool :=
  [m.zeroCopy, m.clearcodec, m.refine, m.videoRegions, m.losslessStill, m.audio, m.microphone, m.camera, m.clipboard]

/-- Type 7, from the daemon. -/
def encodeSettings : Option (List UInt8) := do
  asserts (minFramesPerSecond ≤ m.framesPerSecond ∧ m.framesPerSecond ≤ maxFramesPerSecond)
  asserts (minActivationSeconds ≤ m.activationSeconds ∧ m.activationSeconds ≤ maxActivationSeconds)
  let library ← writeString m.openh264Library maxSettingsPath
  let node ← writeString m.renderNode maxSettingsPath
  pure (Writer.u8 7 ++ (Writer.u16le m.framesPerSecond ++ (Writer.u8 m.bitmapCodec.code ++ (Writer.u8 m.gfxCodec.code ++
    (writeFlag m.h264Backend.isSome ++ (Writer.u8 ((m.h264Backend.map (·.code)).getD 0) ++ (library ++ (node ++
    (m.flags.flatMap writeFlag ++ (Writer.u8 m.autodetect.code ++ (Writer.u32le m.activationSeconds ++
    (Writer.u32le m.h264BitrateKbps ++ (Writer.u32le m.h264MinBitrateKbps ++
    Writer.u32le m.h264MaxBitrateKbps)))))))))))))

/-- Type 2, from the daemon. -/
def encodeNewConnection (m : NewConnection) : Option (List UInt8) := do
  asserts (m.connectionId ≠ 0)
  asserts (m.pendingInput.length ≤ maxPendingInput)
  asserts (m.password.length ≤ maxPassword)
  let negotiation ← writeNegotiation m.negotiation
  let password ← writeString m.password maxPassword
  let peer ← writeString m.peer maxShortString
  let client ← writePresent m.client
  pure (Writer.u8 2 ++ (Writer.u64le m.connectionId ++ (negotiation ++
    (password ++ (peer ++ (Writer.u32le m.elapsedMs ++
    (client ++ (writeOptional writeCookie m.autoReconnect ++ (Writer.u32le m.pendingInput.length ++
    m.pendingInput)))))))))

/-- Type 8, from the daemon. -/
def encodeConsentRequest (m : ConsentRequest) : Option (List UInt8) := do
  asserts (m.connectionId ≠ 0)
  asserts (minConsentSeconds ≤ m.timeoutSeconds ∧ m.timeoutSeconds ≤ maxConsentSeconds)
  let user ← writeString m.user maxLongString
  let peer ← writeString m.peer maxShortString
  let name ← writeString m.clientName maxShortString
  pure (Writer.u8 8 ++ (Writer.u64le m.connectionId ++ (user ++ (peer ++ (name ++ (Writer.u32le m.timeoutSeconds ++
    (writeFlag m.allowOnTimeout ++ writeFlag m.fromSeat)))))))

/-- The type and the fields. -/
def encodeBody : Message → Option (List UInt8)
  | .hello version token => pure (Writer.u8 1 ++ (Writer.u16le version ++ token.toList))
  | .settings m => encodeSettings m
  | .newConnection m => encodeNewConnection m
  | .disconnect connectionId errorInfo => do
    asserts (connectionId ≠ 0)
    pure (Writer.u8 3 ++ (Writer.u64le connectionId ++ Writer.u32le errorInfo))
  | .consentRequest m => encodeConsentRequest m
  | .consentCancel connectionId => do
    asserts (connectionId ≠ 0)
    pure (Writer.u8 9 ++ Writer.u64le connectionId)
  | .consentReply connectionId answer => do
    asserts (connectionId ≠ 0)
    pure (Writer.u8 10 ++ (Writer.u64le connectionId ++ Writer.u8 (answerCode answer)))
  | .seatTakeover allowed => pure (Writer.u8 11 ++ writeFlag allowed)
  | .seatGreeter => pure (Writer.u8 12)
  | .sessionEnded reason detail => do
    let detail ← writeString detail maxLongString
    pure (Writer.u8 4 ++ (Writer.u8 (reasonCode reason) ++ detail))
  | .stats m =>
    pure (Writer.u8 5 ++ (Writer.u64le m.connectionId ++ (Writer.u32le m.sessionSeconds ++
      (Writer.u32le m.idleSeconds ++
      (Writer.u16le m.desktopWidth ++ (Writer.u16le m.desktopHeight ++ (Writer.u64le m.framesSent ++
      (Writer.u64le m.bytesSent ++ (Writer.u64le m.bytesReceived ++ (Writer.u32le m.rttMs ++
      Writer.u32le m.bandwidthKbps))))))))))
  | .terminate reason => pure (Writer.u8 6 ++ Writer.u8 (reasonCode reason))

/-- `none` is a failed assertion. -/
def encode (message : Message) : Option (List UInt8) := do
  let body ← encodeBody message
  asserts (body.length ≤ maxMessageSize)
  pure (Writer.u32le body.length ++ body)

/-! ### Reading -/

/-- The inverse of `writeString`. -/
def readString (max : ℕ) : Parse Text := do
  let start ← at_
  let size ← u16le
  if size > max then Parse.fail .limitExceeded "broker string too long" start
  else bytes size

/-- A presence or boolean byte: 0 or 1, nothing else. -/
def readFlag : Parse Bool := do
  let start ← at_
  let value ← u8
  if value > 1 then Parse.fail .invalidValue "broker flag is not 0 or 1" start
  else pure (value == 1)

/-- An enumeration given by its value. -/
def readEnum {α : Type} (ofCode : ℕ → Option α) (what : String) : Parse α := do
  let start ← at_
  let value ← u8
  match ofCode value with
  | none => Parse.fail .invalidValue what start
  | some a => pure a

/-- A signed coordinate. -/
def readI32 : Parse ℤ := do
  let value ← u32le
  pure (toSigned 32 value)

/-- Its error names the presence byte. -/
def readIdentity (identityOffset : ℕ) : Parse Identity := do
  let user ← readString maxLongString
  let domain ← readString maxLongString
  if user = [] then Parse.fail .invalidValue "empty NLA user name" identityOffset
  else pure { user, domain }

/-- An identity comes exactly with NLA. -/
def readNegotiation : Parse Negotiation := do
  let cookie ← readString maxShortString
  let requestedProtocols ← u32le
  let selectedOffset ← at_
  let selectedProtocol ← u32le
  if knownProtocol selectedProtocol = false then
    Parse.fail .invalidValue "unknown selected protocol" selectedOffset
  else do
    let identityOffset ← at_
    let hasIdentity ← readFlag
    -- As privsep: an identity exactly when NLA authenticated one.
    if hasIdentity ≠ isNla selectedProtocol then
      Parse.fail .invalidValue "identity does not match the selected protocol" identityOffset
    else if hasIdentity then do
      let identity ← readIdentity identityOffset
      pure { cookie, requestedProtocols, selectedProtocol, identity := some identity }
    else pure { cookie, requestedProtocols, selectedProtocol, identity := none }

/-- Inverted rectangles are refused. -/
def readMonitor : Parse Monitor := do
  let monitorOffset ← at_
  let left ← readI32
  let top ← readI32
  let right ← readI32
  let bottom ← readI32
  let primary ← readFlag
  if left > right ∨ top > bottom then Parse.fail .invalidValue "monitor rectangle is inverted" monitorOffset
  else pure { left, top, right, bottom, primary }

/-- A presence byte, and the value if there is one. -/
def readOptional {α : Type} (read : Parse α) : Parse (Option α) := do
  let present ← readFlag
  if present then do
    let a ← read
    pure (some a)
  else pure none

/-- Empty desktops are refused. -/
def readClient : Parse ClientSummary := do
  let sizeOffset ← at_
  let desktopWidth ← u16le
  let desktopHeight ← u16le
  if desktopWidth = 0 ∨ desktopHeight = 0 then Parse.fail .invalidValue "empty desktop size" sizeOffset
  else do
    let keyboardLayout ← u32le
    let keyboardType ← u32le
    let keyboardSubtype ← u32le
    let clientBuild ← u32le
    let clientName ← readString maxShortString
    let desktopScaleFactor ← readOptional u32le
    let countOffset ← at_
    let count ← u8
    if count > maxMonitors then Parse.fail .limitExceeded "too many monitors" countOffset
    else do
      let monitors ← readMany readMonitor count
      pure { desktopWidth, desktopHeight, monitors, keyboardLayout, keyboardType, keyboardSubtype, clientBuild
             clientName, desktopScaleFactor }

/-- A connection id, which is never 0. -/
def readConnectionId : Parse ℕ := do
  let idOffset ← at_
  let id ← u64le
  if id = 0 then Parse.fail .invalidValue "connection id 0" idOffset else pure id

/-- Timeouts outside their range are refused. -/
def decodeConsentRequest : Parse Message := do
  let connectionId ← readConnectionId
  let user ← readString maxLongString
  let peer ← readString maxShortString
  let clientName ← readString maxShortString
  let timeoutOffset ← at_
  let timeoutSeconds ← u32le
  if timeoutSeconds < minConsentSeconds ∨ timeoutSeconds > maxConsentSeconds then
    Parse.fail .invalidValue "consent timeout out of range" timeoutOffset
  else do
    let allowOnTimeout ← readFlag
    let fromSeat ← readFlag
    pure (.consentRequest { connectionId, user, peer, clientName, timeoutSeconds, allowOnTimeout, fromSeat })

/-- The flags of Settings, in the order of `Settings.flags`. -/
def Settings.withFlags : List Bool → Settings
  | [zeroCopy, clearcodec, refine, videoRegions, losslessStill, audio, microphone, camera, clipboard] =>
    { m with zeroCopy, clearcodec, refine, videoRegions, losslessStill, audio, microphone, camera, clipboard }
  | _ => m

/-- The end of Settings, onto the fields before it. -/
def decodeBitrates : Parse Message := do
  let bitrateOffset ← at_
  let h264BitrateKbps ← u32le
  let h264MinBitrateKbps ← u32le
  let h264MaxBitrateKbps ← u32le
  if h264BitrateKbps > maxBitrateKbps ∨ h264MinBitrateKbps > maxBitrateKbps ∨ h264MaxBitrateKbps > maxBitrateKbps then
    Parse.fail .invalidValue "H.264 bitrate out of range" bitrateOffset
  else pure (.settings { m with h264BitrateKbps, h264MinBitrateKbps, h264MaxBitrateKbps })

/-- The backend byte is read without a backend too. -/
def decodeSettings : Parse Message := do
  let rateOffset ← at_
  let framesPerSecond ← u16le
  if framesPerSecond < minFramesPerSecond ∨ framesPerSecond > maxFramesPerSecond then
    Parse.fail .invalidValue "frame rate out of range" rateOffset
  else do
    let bitmapCodec ← readEnum BitmapCodec.ofCode "unknown bitmap codec"
    let gfxCodec ← readEnum TileCodec.ofCode "unknown GFX codec"
    let hasBackend ← readFlag
    let backend ← readEnum Backend.ofCode "unknown H.264 backend"
    let openh264Library ← readString maxSettingsPath
    let renderNode ← readString maxSettingsPath
    let flags ← readMany readFlag 9
    let autodetect ← readEnum AutoDetectMode.ofCode "unknown auto-detect mode"
    let timeoutOffset ← at_
    let activationSeconds ← u32le
    if activationSeconds < minActivationSeconds ∨ activationSeconds > maxActivationSeconds then
      Parse.fail .invalidValue "activation timeout out of range" timeoutOffset
    else
      let m : Settings :=
        { framesPerSecond, bitmapCodec, gfxCodec, h264Backend := if hasBackend then some backend else none
          openh264Library, renderNode, autodetect, activationSeconds }
      decodeBitrates (m.withFlags flags)

/-- The inverse of `writeCookie`. -/
def readCookie : Parse ReconnectCookie := do
  let logonId ← u32le
  let securityVerifier ← readArray 16
  pure { logonId, securityVerifier }

/-- The limit is checked before the bytes are taken. -/
def readPendingInput : Parse (List UInt8) := do
  let inputOffset ← at_
  let inputSize ← u32le
  if inputSize > maxPendingInput then Parse.fail .limitExceeded "too much pending input" inputOffset
  else bytes inputSize

/-- The fields of type 2. -/
def decodeNewConnection : Parse Message := do
  let connectionId ← readConnectionId
  let negotiation ← readNegotiation
  let password ← readString maxPassword
  let peer ← readString maxShortString
  let elapsedMs ← u32le
  let client ← readOptional readClient
  let autoReconnect ← readOptional readCookie
  let pendingInput ← readPendingInput
  pure (.newConnection { connectionId, negotiation, password, peer, elapsedMs, client, autoReconnect, pendingInput })

/-- Connection 0 is none. -/
def decodeStats : Parse Message := do
  let connectionId ← u64le
  let sessionSeconds ← u32le
  let idleSeconds ← u32le
  let desktopWidth ← u16le
  let desktopHeight ← u16le
  let framesSent ← u64le
  let bytesSent ← u64le
  let bytesReceived ← u64le
  let rttMs ← u32le
  let bandwidthKbps ← u32le
  pure (.stats { connectionId, sessionSeconds, idleSeconds, desktopWidth, desktopHeight, framesSent, bytesSent
                 bytesReceived, rttMs, bandwidthKbps })

/-- The version is for the caller to check. -/
def decodeHello : Parse Message := do
  let version ← u16le
  let token ← readArray 32
  pure (.hello version token)

/-- Either side sends it. -/
def decodeDisconnect : Parse Message := do
  let connectionId ← readConnectionId
  let errorInfo ← u32le
  pure (.disconnect connectionId errorInfo)

/-- The question no longer stands. -/
def decodeConsentCancel : Parse Message := do
  let connectionId ← readConnectionId
  pure (.consentCancel connectionId)

/-- What the user answered. -/
def decodeConsentReply : Parse Message := do
  let connectionId ← readConnectionId
  let answer ← readEnum answerOfCode "unknown consent answer"
  pure (.consentReply connectionId answer)

/-- How a login at the machine went. -/
def decodeSeatTakeover : Parse Message := do
  let allowed ← readFlag
  pure (.seatTakeover allowed)

/-- The agent's last message. -/
def decodeSessionEnded : Parse Message := do
  let reason ← readEnum reasonOfCode "unknown session end reason"
  let detail ← readString maxLongString
  pure (.sessionEnded reason detail)

/-- The whole session ends. -/
def decodeTerminate : Parse Message := do
  let reason ← readEnum reasonOfCode "unknown session end reason"
  pure (.terminate reason)

/-- By the type. -/
def decodeBody : Parse Message := do
  let typeOffset ← at_
  let type ← u8
  match type with
  | 1 => decodeHello
  | 2 => decodeNewConnection
  | 3 => decodeDisconnect
  | 4 => decodeSessionEnded
  | 5 => decodeStats
  | 6 => decodeTerminate
  | 7 => decodeSettings
  | 8 => decodeConsentRequest
  | 9 => decodeConsentCancel
  | 10 => decodeConsentReply
  | 11 => decodeSeatTakeover
  | 12 => pure .seatGreeter
  | _ => Parse.fail .invalidValue "unknown broker message type" typeOffset

/-- A message with nothing behind its last field. -/
def decodeFilling : Parse Message := do
  let message ← decodeBody
  expectEnd "broker message"
  pure message

/-- Decodes exactly one framed message. -/
def decode (frame : List UInt8) : Result Message := do
  let (length, outer) ← u32le { rest := frame }
  if length ≠ outer.remaining ∨ length = 0 ∨ length > maxMessageSize then
    fail .invalidLength "broker length does not match the message" 0
  else
    let (message, _) ← decodeFilling outer
    pure message

/-- Whether `sender` may send the message at all. -/
def maySend (sender : Sender) : Message → Bool
  | .disconnect _ _ => true
  | .newConnection _ | .terminate _ | .settings _ | .consentRequest _ | .consentCancel _ | .seatTakeover _ =>
    sender == .daemon
  | .hello _ _ | .consentReply _ _ | .seatGreeter | .sessionEnded _ _ | .stats _ => sender == .agent

/-- Only a NewConnection travels with a descriptor. -/
def carriesFd : Message → Bool
  | .newConnection _ => true
  | _ => false

/-- Decodes a message from `sender`, which may send it, with a descriptor
exactly when it must have one. -/
def decodeFrom (sender : Sender) (frame : List UInt8) (withFd : Bool) : Result Message := do
  let message ← decode frame
  if maySend sender message = false then fail .invalidValue "broker message from the wrong side" lengthPrefix
  else if carriesFd message ≠ withFd then
    fail .invalidValue "broker descriptor missing or unexpected" lengthPrefix
  else pure message

end Wire
end Broker
end Server
end Farland
