/-
# The camera server

One camera at a time over an enumeration channel and a channel per camera
(`server/camera.cpp`): the version handshake, the choice of a stream and a
media type, and samples that are asked for one by one.

The dynamic channels are the ids they give (`ids`, the `n`-th for the `n`-th
channel opened), what is handed to them, and the events they report, in any
order. `log` is not in the source: everything that is called, handed to the
dynamic channels and emitted, newest first, each event with the device
channel of its moment. Polling takes the emitted events from the front and
nothing reads them. What is only logged is left out.

A repeated version request puts the server back to listening while it keeps
its camera, so the next camera that is announced is opened beside it; and a
sample that was not asked for is passed on like any other. `regular` says
that neither happens; everything else a client may send is regular.

Key theorems: `run_oneCamera`, `two_cameras`.
-/
import Farland.Channels.Rdpecam
import Farland.Channels.Drdynvc.Server
import Farland.Lib.Spans

namespace Farland
namespace Server

open Channels.Rdpecam List Option Nat Bool Spans
open Channels.Drdynvc (DvcEvent)

structure CameraOptions where
  maxWidth : ℕ := 1920
  maxHeight : ℕ := 1080
  preferredFps : ℕ := 30
  deriving DecidableEq

inductive CameraEvent where
  | opened (deviceName : Text) (mediaType : MediaType)
  | frame (data : List UInt8)
  | closed (reason : String)
  deriving DecidableEq

/-- What the session does to the server. -/
inductive CameraCall where
  | handle (event : DvcEvent)
  | requestFrame
  | stop
  deriving DecidableEq

inductive CameraEntry where
  | called (call : CameraCall)
  | openChannel (id : ℕ) (name : Text)
  | send (id : ℕ) (pdu : ServerPdu) (version : ℕ)
  | closeChannel (id : ℕ)
  | emitted (device : Option ℕ) (event : CameraEvent)
  deriving DecidableEq

inductive CameraState where
  /-- Waiting for the enumerator channel and the version handshake. -/
  | connecting
  | listening
  | opening
  | streams
  | mediaTypes
  /-- Start Streams sent. -/
  | starting
  | streaming
  | idle
  deriving DecidableEq

structure CameraServer where
  ids : ℕ → ℕ
  options : CameraOptions
  enumeratorId : ℕ
  /-- How many channels have been opened. -/
  channelCount : ℕ := 1
  deviceId : Option ℕ := none
  version : ℕ := version2
  state : CameraState := .connecting
  closed : Bool := false
  deviceName : Text := []
  deviceChannel : Text := []
  /-- Cameras offered while one was in use: device and channel name. -/
  spare : List (Text × Text) := []
  streamIndex : ℕ := 0
  mediaType : MediaType := {}
  samplePending : Bool := false
  log : List CameraEntry := []

namespace CameraServer

/-- The constructor opens the enumeration channel. -/
def create (ids : ℕ → ℕ) (options : CameraOptions) : CameraServer where
  ids := ids
  options := options
  enumeratorId := ids 0

/-! ### The choice of a media type -/

structure Score where
  pixels : ℕ := 0
  rateDistance : ℕ := 0
  formatRank : ℕ := 0
  deriving DecidableEq

/-- More pixels first, then the closest frame rate, then the format. -/
def Score.less (a b : Score) : Bool :=
  a.pixels < b.pixels || a.pixels = b.pixels &&
    (b.rateDistance < a.rateDistance || b.rateDistance = a.rateDistance && a.formatRank < b.formatRank)

def formatRank : MediaFormat → ℕ
  | .i420 => 5
  | .nv12 => 4
  | .yuy2 => 3
  | .rgb24 => 2
  | .rgb32 => 1
  | .h264 | .mjpg | .invalid => 0

/-- An uncompressed picture within the limits. -/
def usable (options : CameraOptions) (type : MediaType) : Bool :=
  !(needsDecoding type.format || type.flags &&& decodingRequired ≠ 0) &&
    !(type.format = .invalid || type.width = 0 || type.height = 0) &&
    !(options.maxWidth < type.width || options.maxHeight < type.height) &&
    type.frameSize ≠ 0

def scoreOf (options : CameraOptions) (type : MediaType) : Score where
  pixels := type.width * type.height
  rateDistance :=
    if options.preferredFps < type.fps then type.fps - options.preferredFps else options.preferredFps - type.fps
  formatRank := formatRank type.format

/-- The better of the best so far and the next one that can be used. -/
def better (options : CameraOptions) (best : Option MediaType) (type : MediaType) : Option MediaType :=
  if usable options type then
    match best with
    | none => some type
    | some b => if (scoreOf options b).less (scoreOf options type) then some type else some b
  else best

def chooseMediaType (offered : List MediaType) (options : CameraOptions) : Option MediaType :=
  offered.foldl (better options) none

/-- The first selected capture stream, or else the first capture stream. -/
def chooseStreamFrom : ℕ → Option ℕ → List StreamDescription → Option ℕ
  | _, chosen, [] => chosen
  | i, chosen, stream :: rest =>
    if stream.category ≠ streamCategoryCapture then chooseStreamFrom (i + 1) chosen rest
    else if stream.selected then some (i % 256)
    else chooseStreamFrom (i + 1) (chosen <|> some (i % 256)) rest

def chooseStream (streams : List StreamDescription) : Option ℕ := chooseStreamFrom 0 none streams

/-! ### Channels and events -/

variable (c : CameraServer)

def note (entry : CameraEntry) : CameraServer := { c with log := entry :: c.log }

def emit (event : CameraEvent) : CameraServer := c.note (.emitted c.deviceId event)

def sendEnumerator (pdu : ServerPdu) : CameraServer :=
  if c.closed then c else c.note (.send c.enumeratorId pdu c.version)

def sendDevice (pdu : ServerPdu) : CameraServer :=
  match c.deviceId with
  | some id => if c.closed then c else c.note (.send id pdu c.version)
  | none => c

def closeDevice : CameraServer :=
  match c.deviceId with
  | some id => { c.note (.closeChannel id) with deviceId := none }
  | none => c

def openDevice (deviceName channelName : Text) : CameraServer :=
  { c.note (.openChannel (c.ids c.channelCount) channelName) with
    deviceName := deviceName
    deviceChannel := channelName
    state := .opening
    samplePending := false
    deviceId := some (c.ids c.channelCount)
    channelCount := c.channelCount + 1 }

/-- The device is given up and nothing is asked of it. -/
def forget : CameraServer :=
  { c.closeDevice with samplePending := false, deviceName := [], deviceChannel := [], state := .listening }

/-- Another camera may have been offered while this one was in use. -/
def takeSpare : CameraServer :=
  match c.spare with
  | [] => c
  | (deviceName, channelName) :: rest => { c with spare := rest }.openDevice deviceName channelName

def dropDevice (reason : String) : CameraServer := (c.forget.emit (.closed reason)).takeSpare

def close (reason : String) : CameraServer :=
  if c.closed then c
  else ({ c with closed := true }.closeDevice.note (.closeChannel c.enumeratorId)).emit (.closed reason)

def requestFrame : CameraServer :=
  if c.state ≠ .streaming ∨ c.samplePending then c
  else { c with samplePending := true }.sendDevice (.sampleRequest c.streamIndex)

def stop : CameraServer :=
  if c.deviceId = none then c
  else
    let stopped := if c.state = .streaming ∨ c.state = .starting then c.sendDevice .stopStreamsRequest else c
    let left := (stopped.sendDevice .deactivateDeviceRequest).closeDevice
    { left with samplePending := false, state := if c.closed then c.state else .listening }

/-! ### Messages -/

def onEnumeratorPdu : ClientPdu → Result CameraServer
  | .selectVersionRequest version =>
    if version < version1 then fail .invalidValue "camera client asked for version 0" 0
    else
      let version := min version version2
      .ok ({ c with version := version, state := .listening }.sendEnumerator (.selectVersionResponse version))
  | .deviceAdded deviceName channelName =>
    if c.state = .listening then .ok (c.openDevice deviceName channelName)
    else .ok { c with spare := c.spare ++ [(deviceName, channelName)] }
  | .deviceRemoved channelName =>
    let c := { c with spare := c.spare.filter (·.2 ≠ channelName) }
    if c.deviceId ≠ none ∧ channelName = c.deviceChannel then
      .ok (c.dropDevice "the client unplugged the camera")
    else .ok c
  | .errorResponse code => fail .invalidValue (errorCodeName code) 0
  -- a Success Response is an acknowledgement with nothing to do
  | _ => .ok c

def onStreamList (streams : List StreamDescription) : CameraServer :=
  if c.state ≠ .streams then c
  else
    match chooseStream streams with
    | none => c.dropDevice "the camera has no capture stream"
    | some chosen =>
      { c with streamIndex := chosen, state := .mediaTypes }.sendDevice (.mediaTypeListRequest chosen)

def onMediaTypeList (mediaTypes : List MediaType) : CameraServer :=
  if c.state ≠ .mediaTypes then c
  else
    match chooseMediaType mediaTypes c.options with
    | none =>
      c.dropDevice ("the camera offers no format farland can read (" ++ toString mediaTypes.length ++
        " media types, all compressed or too large)")
    | some chosen =>
      { c with mediaType := chosen, state := .starting }.sendDevice (.startStreamsRequest c.streamIndex chosen)

def onStarted : CameraServer :=
  if c.state = .starting then
    ({ c with state := .streaming }.emit (.opened c.deviceName c.mediaType)).requestFrame
  else c

/-- A short frame would be read past its end, a long one means two opinions of the format. -/
def onSample (streamIndex : ℕ) (sample : List UInt8) : CameraServer :=
  if c.state ≠ .streaming ∨ streamIndex ≠ c.streamIndex then c
  else
    let c := { c with samplePending := false }
    if sample.length ≠ c.mediaType.frameSize then
      c.dropDevice ("the camera sent a " ++ toString sample.length ++ "-byte frame where " ++
        toString c.mediaType.frameSize ++ " bytes are a " ++ formatName c.mediaType.format ++ " " ++
        toString c.mediaType.width ++ "x" ++ toString c.mediaType.height ++ " picture")
    else c.emit (.frame sample)

def onDevicePdu : ClientPdu → CameraServer
  | .streamListResponse streams => c.onStreamList streams
  | .mediaTypeListResponse mediaTypes => c.onMediaTypeList mediaTypes
  | .successResponse => c.onStarted
  | .sampleResponse streamIndex sample => c.onSample streamIndex sample
  | .sampleErrorResponse _ code => c.dropDevice ("the camera failed: " ++ errorCodeName code)
  | .errorResponse code => c.dropDevice ("the camera refused the request: " ++ errorCodeName code)
  -- never asked for, or out of sequence
  | _ => c

variable (message : List UInt8)

def onEnumerator : CameraServer :=
  match decodeClientPdu message >>= c.onEnumeratorPdu with
  | .ok c => c
  | .error e => c.close ("protocol error: " ++ e.message)

def onDevice : CameraServer :=
  match decodeClientPdu message with
  | .ok pdu => c.onDevicePdu pdu
  | .error e => c.dropDevice ("protocol error: " ++ e.message)

/-- Activate, then ask what it has. -/
def onDeviceOpened : CameraServer :=
  ({ c with state := .streams }.sendDevice .activateDeviceRequest).sendDevice .streamListRequest

/-- The channel an event is about. -/
def channelOf : DvcEvent → Option ℕ
  | .capabilitiesReady _ => none
  | .channelOpened id _ | .channelOpenFailed id _ _ | .channelData id _ | .channelClosed id => some id

variable (event : DvcEvent)

def fromEnumerator : CameraServer :=
  match event with
  -- the client speaks first, with the version it wants
  | .channelOpened _ _ | .capabilitiesReady _ => c
  | .channelOpenFailed _ _ _ => c.close "the client has no camera channel"
  | .channelData _ data => c.onEnumerator data
  | .channelClosed _ => { c with closed := true }.emit (.closed "the client closed the camera channel")

def fromDevice : CameraServer :=
  match event with
  | .channelOpened _ _ => c.onDeviceOpened
  | .channelOpenFailed _ _ _ => c.dropDevice "the client refused the camera's channel"
  | .channelData _ data => c.onDevice data
  | .channelClosed _ => c.dropDevice "the client closed the camera"
  | .capabilitiesReady _ => c

/-- The event concerns one of the camera channels; `handle` answers this. -/
def concerns : Bool :=
  !c.closed && (channelOf event).any fun id => id = c.enumeratorId || some id = c.deviceId

def handle : CameraServer :=
  if c.concerns event then
    if channelOf event = some c.enumeratorId then c.fromEnumerator event else c.fromDevice event
  else c

/-! ### Runs -/

def call (what : CameraCall) : CameraServer :=
  let c := c.note (.called what)
  match what with
  | .handle event => c.handle event
  | .requestFrame => c.requestFrame
  | .stop => c.stop

def run (calls : List CameraCall) : CameraServer := calls.foldl call c

/-! ### What the log says -/

/-- The camera that an entry says is streaming, on its device channel. -/
def opens : CameraEntry → Option (Option ℕ × MediaType)
  | .emitted device (.opened _ mediaType) => some (device, mediaType)
  | _ => none

/-- After these no camera is streaming. -/
def ends : CameraEntry → Bool
  | .emitted _ (.closed _) | .called .stop => true
  | _ => false

/-- The device channels neither closed by the server nor reported closed or failed. -/
def stillOpen : List CameraEntry → List ℕ
  | [] => []
  | .openChannel id _ :: older => id :: stillOpen older
  | .closeChannel id :: older => (stillOpen older).filter (· ≠ id)
  | .called (.handle (.channelClosed id)) :: older => (stillOpen older).filter (· ≠ id)
  | .called (.handle (.channelOpenFailed id _ _)) :: older => (stillOpen older).filter (· ≠ id)
  | _ :: older => stillOpen older

/-- The device channels reported open since they were opened. -/
def reportedOpen : List CameraEntry → List ℕ
  | [] => []
  | .called (.handle (.channelOpened id _)) :: older => id :: reportedOpen older
  | .openChannel id _ :: older => (reportedOpen older).filter (· ≠ id)
  | _ :: older => reportedOpen older

def isFrameOf (id : ℕ) : CameraEntry → Bool
  | .emitted device (.frame _) => device = some id
  | _ => false

def isSampleRequestTo (id : ℕ) : CameraEntry → Bool
  | .send channel (.sampleRequest _) _ => channel = id
  | _ => false

def framesOf (id : ℕ) (log : List CameraEntry) : ℕ := log.countP (isFrameOf id)

def sampleRequestsTo (id : ℕ) (log : List CameraEntry) : ℕ := log.countP (isSampleRequestTo id)

def eventOf : CameraEntry → Option CameraEvent
  | .emitted _ event => some event
  | _ => none

/-- The events emitted, newest first. -/
def emittedEvents (log : List CameraEntry) : List CameraEvent := log.filterMap eventOf

/-- Whether the message is a sample of the stream, of the right size, that nobody asked for. -/
def unasked : Bool :=
  match decodeClientPdu message with
  | .ok (.sampleResponse streamIndex sample) =>
    streamIndex = c.streamIndex && c.state = .streaming && sample.length = c.mediaType.frameSize && !c.samplePending
  | _ => false

/-- Whether the message announces a camera to a server that listens beside its camera. -/
def beside : Bool :=
  match decodeClientPdu message with
  | .ok (.deviceAdded _ _) => c.state = .listening && c.deviceId ≠ none
  | _ => false

/-- A step in which the client does neither, and the dynamic channels report no
channel open a second time. -/
def regular : CameraCall → Bool
  | .handle (.channelOpened id _) => !(id ∈ reportedOpen c.log && some id = c.deviceId)
  | .handle (.channelData id data) =>
    c.closed || if id = c.enumeratorId then !c.beside data else !(some id = c.deviceId && c.unasked data)
  | _ => true

def regularRun (c : CameraServer) : List CameraCall → Bool
  | [] => true
  | what :: calls => c.regular what && (c.call what).regularRun calls

/-! ### The invariant -/

/-- What the log says of itself. -/
structure LogInv (log : List CameraEntry) : Prop where
  apart : Spans.Apart opens ends log
  framed : ∀ newer device data older, log = newer ++ .emitted device (.frame data) :: older →
    ∃ mediaType, current opens ends older = some (device, mediaType) ∧ data.length = mediaType.frameSize
  asked : ∀ id, framesOf id log ≤ sampleRequestsTo id log

/-- Handshake or stream: the device channel has been reported open. -/
def Talking (state : CameraState) : Prop :=
  state = .streams ∨ state = .mediaTypes ∨ state = .starting ∨ state = .streaming

structure Inv (c : CameraServer) : Prop where
  log : LogInv c.log
  channels : stillOpen c.log = [] ∨ ∃ id, c.deviceId = some id ∧ stillOpen c.log = [id]
  connecting : c.state = .connecting → c.deviceId = none
  held : c.closed = false → c.state ≠ .connecting → c.state ≠ .listening → c.deviceId ≠ none
  talking : c.closed = false → Talking c.state → ∃ id, c.deviceId = some id ∧ id ∈ reportedOpen c.log
  streaming : c.closed = false → c.state = .streaming →
    current opens ends c.log = some (c.deviceId, c.mediaType)
  /-- A camera that was opened is streaming, or the version was asked for again meanwhile. -/
  on : ∀ b, current opens ends c.log = some b → c.closed = false ∧
    (c.state = .streaming ∨ c.state = .listening) ∧ ∃ id, c.deviceId = some id ∧ id ∈ reportedOpen c.log
  pending : c.closed = false → c.samplePending = true → ∀ id, c.deviceId = some id →
    framesOf id c.log < sampleRequestsTo id c.log
  told : c.closed = true → ∃ reason, (emittedEvents c.log).head? = some (.closed reason)

variable {c : CameraServer}

/-- An entry that neither opens a camera nor is a frame. -/
def Plain (e : CameraEntry) : Prop := opens e = none ∧ ∀ device data, e ≠ .emitted device (.frame data)

theorem framesOf_cons_plain {e : CameraEntry} (h : Plain e) (id : ℕ) (log : List CameraEntry) :
    framesOf id (e :: log) = framesOf id log := by
  apply countP_cons_of_neg
  intro hframe
  unfold isFrameOf at hframe
  split at hframe
  · next device data => exact h.2 device data rfl
  · exact absurd hframe (by simp)

theorem sampleRequestsTo_le_cons (id : ℕ) (e : CameraEntry) (log : List CameraEntry) :
    sampleRequestsTo id log ≤ sampleRequestsTo id (e :: log) := by
  unfold sampleRequestsTo
  rw [countP_cons]
  exact Nat.le_add_right _ _

theorem LogInv.cons_plain {log : List CameraEntry} (h : LogInv log) {e : CameraEntry} (hplain : Plain e) :
    LogInv (e :: log) where
  apart := h.apart.cons fun ho => absurd ho (by simp [hplain.1])
  framed := by
    intro newer device data older heq
    cases newer with
    | nil => exact absurd (List.cons.inj heq).1 (hplain.2 device data)
    | cons x newer => exact h.framed newer device data older (List.cons.inj heq).2
  asked := by
    intro id
    rw [framesOf_cons_plain hplain]
    exact (h.asked id).trans (sampleRequestsTo_le_cons id e log)

theorem plain_called (what : CameraCall) : Plain (.called what) := ⟨rfl, fun _ _ => by simp⟩

theorem plain_send (id : ℕ) (pdu : ServerPdu) (version : ℕ) : Plain (.send id pdu version) := ⟨rfl, fun _ _ => by simp⟩

theorem plain_openChannel (id : ℕ) (name : Text) : Plain (.openChannel id name) := ⟨rfl, fun _ _ => by simp⟩

theorem plain_closeChannel (id : ℕ) : Plain (.closeChannel id) := ⟨rfl, fun _ _ => by simp⟩

theorem plain_closed (device : Option ℕ) (reason : String) : Plain (.emitted device (.closed reason)) :=
  ⟨rfl, fun _ _ => by simp⟩

/-- Fields that the invariant does not read may change. -/
theorem Inv.same (h : Inv c) {c' : CameraServer} (hlog : c'.log = c.log) (hdevice : c'.deviceId = c.deviceId)
    (hstate : c'.state = c.state) (hclosed : c'.closed = c.closed) (hmedia : c'.mediaType = c.mediaType)
    (hpending : c'.samplePending = true → c.samplePending = true) : Inv c' where
  log := hlog ▸ h.log
  channels := by rw [hlog, hdevice]; exact h.channels
  connecting := by rw [hstate, hdevice]; exact h.connecting
  held := by rw [hclosed, hstate, hdevice]; exact h.held
  talking := by rw [hclosed, hstate, hdevice, hlog]; exact h.talking
  streaming := by rw [hclosed, hstate, hdevice, hlog, hmedia]; exact h.streaming
  on := by rw [hclosed, hstate, hdevice, hlog]; exact h.on
  pending := by rw [hclosed, hdevice, hlog]; exact fun hc hp => h.pending hc (hpending hp)
  told := by rw [hclosed, hlog]; exact h.told

/-- A message to the client. -/
theorem Inv.send (h : Inv c) (id : ℕ) (pdu : ServerPdu) (version : ℕ) : Inv (c.note (.send id pdu version)) where
  log := h.log.cons_plain (plain_send id pdu version)
  channels := h.channels
  connecting := h.connecting
  held := h.held
  talking := h.talking
  streaming := h.streaming
  on := h.on
  pending := by
    intro hclosed hpending device hdevice
    have hless := h.pending hclosed hpending device hdevice
    calc framesOf device (.send id pdu version :: c.log)
      _ < sampleRequestsTo device c.log := hless
      _ ≤ _ := sampleRequestsTo_le_cons device _ _
  told := h.told

theorem sendDevice_eq (c : CameraServer) {id : ℕ} (hid : c.deviceId = some id) (hclosed : c.closed = false)
    (pdu : ServerPdu) :
    c.sendDevice pdu = c.note (.send id pdu c.version) := by
  simp [CameraServer.sendDevice, hid, hclosed]

theorem sendDevice_closed (c : CameraServer) (hclosed : c.closed = true) (pdu : ServerPdu) :
    c.sendDevice pdu = c := by
  unfold CameraServer.sendDevice
  split
  · exact if_pos hclosed
  · rfl

theorem Inv.sendDevice (h : Inv c) (pdu : ServerPdu) : Inv (c.sendDevice pdu) := by
  unfold CameraServer.sendDevice
  split
  · split_ifs
    · exact h
    · exact h.send _ _ _
  · exact h

theorem Inv.sendEnumerator (h : Inv c) (pdu : ServerPdu) : Inv (c.sendEnumerator pdu) := by
  unfold CameraServer.sendEnumerator
  split_ifs
  · exact h
  · exact h.send _ _ _

/-- What a call other than `stop` adds to the log by being made. -/
theorem Inv.called (h : Inv c) {what : CameraCall} (hstop : what ≠ .stop) : Inv (c.note (.called what)) := by
  have hplain := plain_called what
  have hends : ends (.called what) = false := by
    unfold ends
    split
    · next heq => cases heq
    · next heq => exact absurd (CameraEntry.called.inj heq) hstop
    · rfl
  have hcurrent : current opens ends (.called what :: c.log) = current opens ends c.log := current_cons_other rfl hends
  have hreported : ∀ id, id ∈ reportedOpen c.log → id ∈ reportedOpen (.called what :: c.log) := by
    intro id hid
    unfold reportedOpen
    split
    · next heq => cases heq
    · next heq =>
      obtain ⟨-, rfl⟩ := List.cons.inj heq
      exact mem_cons_of_mem _ hid
    · next heq => cases heq
    · next heq =>
      obtain ⟨-, rfl⟩ := List.cons.inj heq
      exact hid
  have hopen : stillOpen (.called what :: c.log) = stillOpen c.log ∨
      ∃ id, stillOpen (.called what :: c.log) = (stillOpen c.log).filter (· ≠ id) := by
    match what with
    | .handle (.channelClosed id) => exact .inr ⟨id, rfl⟩
    | .handle (.channelOpenFailed id _ _) => exact .inr ⟨id, rfl⟩
    | .handle (.capabilitiesReady _) | .handle (.channelOpened _ _) | .handle (.channelData _ _)
    | .requestFrame | .stop => exact .inl rfl
  refine ⟨h.log.cons_plain hplain, ?_, h.connecting, h.held, ?_, ?_, ?_, ?_, h.told⟩
  · show stillOpen (.called what :: c.log) = [] ∨ ∃ id, c.deviceId = some id ∧ stillOpen (.called what :: c.log) = [id]
    rcases hopen with hopen | ⟨id, hopen⟩
    · rw [hopen]
      exact h.channels
    · rw [hopen]
      rcases h.channels with hnone | ⟨device, hdevice, hone⟩
      · exact .inl (by rw [hnone]; rfl)
      · rw [hone]
        by_cases hid : device = id
        · exact .inl (by simp [hid])
        · exact .inr ⟨device, hdevice, by simp [hid]⟩
  · intro hclosed htalking
    obtain ⟨id, hid, hmem⟩ := h.talking hclosed htalking
    exact ⟨id, hid, hreported id hmem⟩
  · intro hclosed hstate
    exact hcurrent.trans (h.streaming hclosed hstate)
  · intro b hb
    obtain ⟨hclosed, hstate, id, hid, hmem⟩ := h.on b (hcurrent.symm.trans hb)
    exact ⟨hclosed, hstate, id, hid, hreported id hmem⟩
  · intro hclosed hpending id hid
    calc framesOf id (.called what :: c.log) = framesOf id c.log := framesOf_cons_plain hplain id c.log
      _ < sampleRequestsTo id c.log := h.pending hclosed hpending id hid
      _ ≤ _ := sampleRequestsTo_le_cons id _ _

/-! ### Dropping and opening a device -/

theorem stillOpen_closeDevice (h : stillOpen c.log = [] ∨ ∃ id, c.deviceId = some id ∧ stillOpen c.log = [id]) :
    stillOpen c.closeDevice.log = [] := by
  unfold closeDevice
  match hdevice : c.deviceId with
  | some id =>
    show (stillOpen c.log).filter (· ≠ id) = []
    rcases h with hnone | ⟨device, hd, hone⟩
    · rw [hnone]
      rfl
    · obtain rfl : id = device := Option.some.inj (hdevice.symm.trans hd)
      rw [hone]
      simp
  | none =>
    show stillOpen c.log = []
    rcases h with hnone | ⟨device, hd, -⟩
    · exact hnone
    · exact absurd (hdevice.symm.trans hd) (by simp)

theorem closeDevice_log (h : LogInv c.log) : LogInv c.closeDevice.log := by
  unfold closeDevice
  split
  · exact h.cons_plain (plain_closeChannel _)
  · exact h

theorem closeDevice_deviceId : c.closeDevice.deviceId = none := by
  unfold closeDevice
  split
  · rfl
  · assumption

theorem closeDevice_closed : c.closeDevice.closed = c.closed := by
  unfold closeDevice
  split <;> rfl

/-- With no device there is nothing to hold, and no camera streams. -/
theorem inv_without_device (hlog : LogInv c.log) (hopen : stillOpen c.log = []) (hdevice : c.deviceId = none)
    (hstate : c.closed = false → c.state = .listening ∨ c.state = .connecting)
    (hcurrent : current opens ends c.log = none)
    (htold : c.closed = true → ∃ reason, (emittedEvents c.log).head? = some (.closed reason)) : Inv c where
  log := hlog
  channels := .inl hopen
  connecting := fun _ => hdevice
  held := fun hclosed h1 h2 => absurd (hstate hclosed) (by simp [h1, h2])
  talking := by
    intro hclosed htalking
    rcases hstate hclosed with hs | hs <;> simp [Talking, hs] at htalking
  streaming := by
    intro hclosed hs
    rcases hstate hclosed with hs' | hs' <;> rw [hs'] at hs <;> cases hs
  on := fun b hb => absurd (hcurrent.symm.trans hb) (by simp)
  pending := fun _ _ id hid => absurd (hdevice.symm.trans hid) (by simp)
  told := htold

theorem Inv.dropped (h : Inv c) (hclosed : c.closed = false) (reason : String) :
    Inv (c.forget.emit (.closed reason)) := by
  have hcl : c.forget.closed = false := closeDevice_closed.trans hclosed
  apply inv_without_device
  · exact (closeDevice_log h.log).cons_plain (plain_closed _ reason)
  · exact stillOpen_closeDevice h.channels
  · exact closeDevice_deviceId
  · exact fun _ => .inl rfl
  · exact current_cons_end rfl rfl
  · exact fun htrue => absurd (hcl.symm.trans htrue) (by simp)

/-- A device is opened where there is none. -/
theorem Inv.openDevice (h : Inv c) (hclosed : c.closed = false) (hdevice : c.deviceId = none)
    (deviceName channelName : Text) : Inv (c.openDevice deviceName channelName) := by
  have hnone : current opens ends c.log = none := by
    cases hcurrent : current opens ends c.log with
    | none => rfl
    | some b =>
      obtain ⟨-, -, id, hid, -⟩ := h.on b hcurrent
      exact absurd (hdevice.symm.trans hid) (by simp)
  have hcurrent : current opens ends (c.openDevice deviceName channelName).log = none :=
    (current_cons_other rfl rfl).trans hnone
  have hopen : stillOpen c.log = [] := by
    rcases h.channels with hopen | ⟨id, hid, -⟩
    · exact hopen
    · exact absurd (hdevice.symm.trans hid) (by simp)
  refine ⟨h.log.cons_plain (plain_openChannel _ _), .inr ⟨_, rfl, ?_⟩, ?_,
    fun _ _ _ => by simp [CameraServer.openDevice],
    ?_, ?_, ?_, ?_, ?_⟩
  · show c.ids c.channelCount :: stillOpen c.log = _
    rw [hopen]
  · intro hs
    cases hs
  · intro _ htalking
    rcases htalking with hs | hs | hs | hs <;> cases hs
  · intro _ hs
    cases hs
  · exact fun b hb => absurd (hcurrent.symm.trans hb) (by simp)
  · intro _ hpending
    cases hpending
  · intro htrue
    exact absurd (hclosed.symm.trans htrue) (by simp)

theorem Inv.takeSpare (h : Inv c) (hclosed : c.closed = false) (hdevice : c.deviceId = none) : Inv c.takeSpare := by
  unfold CameraServer.takeSpare
  split
  · exact h
  · next deviceName channelName rest hspare =>
    have hrest : Inv { c with spare := rest } := h.same rfl rfl rfl rfl rfl fun hpending => hpending
    exact hrest.openDevice hclosed hdevice deviceName channelName

/-- **The device in use is given up**, for a spare one if there is any. -/
theorem Inv.dropDevice (h : Inv c) (hclosed : c.closed = false) (reason : String) : Inv (c.dropDevice reason) :=
  (h.dropped hclosed reason).takeSpare (closeDevice_closed.trans hclosed) closeDevice_deviceId

/-- What holds once the enumeration channel is closed. -/
theorem inv_closed (hlog : LogInv c.log) (hclosed : c.closed = true)
    (hopen : stillOpen c.log = [] ∨ ∃ id, c.deviceId = some id ∧ stillOpen c.log = [id])
    (hconnecting : c.state = .connecting → c.deviceId = none)
    (hcurrent : current opens ends c.log = none)
    (htold : ∃ reason, (emittedEvents c.log).head? = some (.closed reason)) : Inv c where
  log := hlog
  channels := hopen
  connecting := hconnecting
  held := fun hfalse => absurd (hclosed.symm.trans hfalse) (by simp)
  talking := fun hfalse => absurd (hclosed.symm.trans hfalse) (by simp)
  streaming := fun hfalse => absurd (hclosed.symm.trans hfalse) (by simp)
  on := fun b hb => absurd (hcurrent.symm.trans hb) (by simp)
  pending := fun hfalse => absurd (hclosed.symm.trans hfalse) (by simp)
  told := fun _ => htold

/-- The server closes the enumeration channel. -/
theorem Inv.close (h : Inv c) (reason : String) : Inv (c.close reason) := by
  unfold CameraServer.close
  by_cases hclosed : c.closed
  · rw [if_pos hclosed]
    exact h
  · rw [if_neg hclosed]
    have hlog : LogInv ({ c with closed := true }.closeDevice).log := closeDevice_log h.log
    have hopen : stillOpen ({ c with closed := true }.closeDevice).log = [] := stillOpen_closeDevice h.channels
    apply inv_closed
    · exact (hlog.cons_plain (plain_closeChannel _)).cons_plain (plain_closed _ reason)
    · exact closeDevice_closed
    · left
      show (stillOpen ({ c with closed := true }.closeDevice).log).filter _ = []
      rw [hopen]
      rfl
    · exact fun _ => closeDevice_deviceId
    · exact current_cons_end rfl rfl
    · exact ⟨reason, rfl⟩

/-- The client closes the enumeration channel. -/
theorem Inv.closedByClient (h : Inv c) (reason : String) :
    Inv ({ c with closed := true }.emit (.closed reason)) :=
  inv_closed (h.log.cons_plain (plain_closed _ reason)) rfl h.channels h.connecting
    (current_cons_end rfl rfl) ⟨reason, rfl⟩

/-! ### Samples -/

theorem sampleRequestsTo_note (id : ℕ) (streamIndex version : ℕ) (log : List CameraEntry) :
    sampleRequestsTo id (.send id (.sampleRequest streamIndex) version :: log) = sampleRequestsTo id log + 1 := by
  apply countP_cons_of_pos
  simp [isSampleRequestTo]

/-- A request makes room for one more frame. -/
theorem Inv.requestFrame (h : Inv c) : Inv c.requestFrame := by
  unfold CameraServer.requestFrame
  by_cases hnot : c.state ≠ .streaming ∨ c.samplePending
  · rw [if_pos hnot]
    exact h
  · rw [if_neg hnot]
    push Not at hnot
    obtain ⟨hstate, -⟩ := hnot
    by_cases hclosed : c.closed = true
    · have hsilent : { c with samplePending := true }.sendDevice (.sampleRequest c.streamIndex) =
          { c with samplePending := true } := sendDevice_closed { c with samplePending := true } hclosed _
      rw [hsilent]
      refine ⟨h.log, h.channels, h.connecting, h.held, h.talking, h.streaming, h.on, ?_, h.told⟩
      intro hfalse
      exact absurd (hclosed.symm.trans hfalse) (by simp)
    · rw [not_eq_true] at hclosed
      obtain ⟨id, hid, -⟩ := h.talking hclosed (.inr (.inr (.inr hstate)))
      have hsend : { c with samplePending := true }.sendDevice (.sampleRequest c.streamIndex) =
          { c with samplePending := true }.note (.send id (.sampleRequest c.streamIndex) c.version) :=
        sendDevice_eq { c with samplePending := true } hid hclosed _
      rw [hsend]
      have hsent := h.send id (.sampleRequest c.streamIndex) c.version
      refine ⟨hsent.log, hsent.channels, hsent.connecting, hsent.held, hsent.talking, hsent.streaming, hsent.on, ?_,
        hsent.told⟩
      intro _ _ device hdevice
      obtain rfl : id = device := Option.some.inj (hid.symm.trans hdevice)
      calc framesOf id (.send id (.sampleRequest c.streamIndex) c.version :: c.log)
        _ < sampleRequestsTo id c.log + 1 := lt_succ_of_le (h.log.asked id)
        _ = _ := (sampleRequestsTo_note id c.streamIndex c.version c.log).symm

theorem Inv.answered (h : Inv c) : Inv { c with samplePending := false } :=
  h.same rfl rfl rfl rfl rfl fun hfalse => absurd hfalse (by simp)

/-- A frame that was asked for, of a camera that streams. -/
theorem Inv.frame (h : Inv c) (hclosed : c.closed = false) (hstate : c.state = .streaming)
    (hpending : c.samplePending = true) {sample : List UInt8} (hsize : sample.length = c.mediaType.frameSize) :
    Inv ({ c with samplePending := false }.emit (.frame sample)) := by
  have hcurrent := h.streaming hclosed hstate
  have hsame : current opens ends (.emitted c.deviceId (.frame sample) :: c.log) =
      current opens ends c.log := current_cons_other rfl rfl
  obtain ⟨id, hid, hreported⟩ := h.talking hclosed (.inr (.inr (.inr hstate)))
  refine ⟨⟨?_, ?_, ?_⟩, h.channels, h.connecting, h.held, h.talking, ?_, ?_, ?_, ?_⟩
  · exact h.log.apart.cons fun ho => absurd ho (by simp [opens])
  · intro newer device data older heq
    cases newer with
    | nil =>
      obtain ⟨hentry, rfl⟩ := List.cons.inj heq
      obtain ⟨rfl, hevent⟩ := CameraEntry.emitted.inj hentry
      obtain rfl := CameraEvent.frame.inj hevent
      exact ⟨c.mediaType, hcurrent, hsize⟩
    | cons x newer => exact h.log.framed newer device data older (List.cons.inj heq).2
  · intro device
    by_cases hdevice : device = id
    · rw [hdevice]
      have hone : framesOf id (.emitted c.deviceId (.frame sample) :: c.log) = framesOf id c.log + 1 := by
        apply countP_cons_of_pos
        simp [isFrameOf, hid]
      have hless := h.pending hclosed hpending id hid
      calc framesOf id (.emitted c.deviceId (.frame sample) :: c.log) = framesOf id c.log + 1 := hone
        _ ≤ sampleRequestsTo id c.log := hless
        _ ≤ _ := sampleRequestsTo_le_cons id _ _
    · have hother : framesOf device (.emitted c.deviceId (.frame sample) :: c.log) = framesOf device c.log := by
        apply countP_cons_of_neg
        simp [isFrameOf, hid, Ne.symm hdevice]
      exact hother.trans_le ((h.log.asked device).trans (sampleRequestsTo_le_cons device _ _))
  · exact fun _ _ => hsame.trans hcurrent
  · exact fun b hb => h.on b (hsame.symm.trans hb)
  · exact fun _ hfalse => absurd hfalse (by simp [emit, note])
  · exact fun htrue => absurd (hclosed.symm.trans htrue) (by simp)

/-! ### Device messages -/

/-- The handshake goes on. -/
theorem Inv.proceed (h : Inv c) (hclosed : c.closed = false) (state : CameraState) (hstate : state ≠ .streaming)
    (hreported : ∃ id, c.deviceId = some id ∧ id ∈ reportedOpen c.log)
    (hcurrent : current opens ends c.log = none) {c' : CameraServer}
    (hlog : c'.log = c.log) (hdevice : c'.deviceId = c.deviceId) (hstate' : c'.state = state)
    (hconnecting : state ≠ .connecting) (hclosed' : c'.closed = c.closed)
    (hpending : c'.samplePending = c.samplePending) : Inv c' where
  log := hlog ▸ h.log
  channels := by rw [hlog, hdevice]; exact h.channels
  connecting := fun hs => absurd (hstate'.symm.trans hs) hconnecting
  held := by
    intro _ _ _ hnone
    obtain ⟨id, hid, -⟩ := hreported
    rw [hdevice, hid] at hnone
    cases hnone
  talking := by rw [hdevice, hlog]; exact fun _ _ => hreported
  streaming := fun _ hs => absurd (hstate'.symm.trans hs) hstate
  on := by
    intro b hb
    rw [hlog, hcurrent] at hb
    cases hb
  pending := by rw [hclosed', hpending, hdevice, hlog]; exact h.pending
  told := fun htrue => absurd (hclosed.symm.trans (hclosed'.symm.trans htrue)) (by simp)

theorem current_none_of_state (h : Inv c) (h1 : c.state ≠ .streaming) (h2 : c.state ≠ .listening) :
    current opens ends c.log = none := by
  cases hcurrent : current opens ends c.log with
  | none => rfl
  | some b =>
    obtain ⟨-, hs, -⟩ := h.on b hcurrent
    exact absurd hs (by simp [h1, h2])

theorem Inv.onStreamList (h : Inv c) (hclosed : c.closed = false) (streams : List StreamDescription) :
    Inv (c.onStreamList streams) := by
  unfold CameraServer.onStreamList
  by_cases hstate : c.state = .streams
  · rw [if_neg (not_not_intro hstate)]
    split
    · exact h.dropDevice hclosed _
    · apply Inv.sendDevice
      exact h.proceed hclosed .mediaTypes (by simp) (h.talking hclosed (.inl hstate))
        (current_none_of_state h (by simp [hstate]) (by simp [hstate])) rfl rfl rfl (by simp) rfl rfl
  · rw [if_pos hstate]
    exact h

theorem Inv.onMediaTypeList (h : Inv c) (hclosed : c.closed = false) (mediaTypes : List MediaType) :
    Inv (c.onMediaTypeList mediaTypes) := by
  unfold CameraServer.onMediaTypeList
  by_cases hstate : c.state = .mediaTypes
  · rw [if_neg (not_not_intro hstate)]
    split
    · exact h.dropDevice hclosed _
    · apply Inv.sendDevice
      exact h.proceed hclosed .starting (by simp) (h.talking hclosed (.inr (.inl hstate)))
        (current_none_of_state h (by simp [hstate]) (by simp [hstate])) rfl rfl rfl (by simp) rfl rfl
  · rw [if_pos hstate]
    exact h

/-- **The camera is opened** once nothing streams. -/
theorem Inv.onStarted (h : Inv c) (hclosed : c.closed = false) : Inv c.onStarted := by
  unfold CameraServer.onStarted
  by_cases hstate : c.state = .starting
  · rw [if_pos hstate]
    apply Inv.requestFrame
    have hnone := current_none_of_state h (by simp [hstate]) (by simp [hstate])
    have hreported := h.talking hclosed (.inr (.inr (.inl hstate)))
    have hopened : current opens ends (.emitted c.deviceId (.opened c.deviceName c.mediaType) :: c.log) =
        some (c.deviceId, c.mediaType) := current_cons_open rfl
    have hframes : ∀ id, framesOf id (.emitted c.deviceId (.opened c.deviceName c.mediaType) :: c.log) =
        framesOf id c.log := by
      intro id
      apply countP_cons_of_neg
      simp [isFrameOf]
    refine ⟨⟨h.log.apart.cons fun _ => hnone, ?_, ?_⟩, h.channels, ?_, ?_, fun _ _ => hreported, fun _ _ => hopened,
      fun _ _ => ⟨hclosed, .inl rfl, hreported⟩, ?_, ?_⟩
    · intro newer device data older heq
      cases newer with
      | nil => cases (List.cons.inj heq).1
      | cons x newer => exact h.log.framed newer device data older (List.cons.inj heq).2
    · intro id
      exact (hframes id).trans_le ((h.log.asked id).trans (sampleRequestsTo_le_cons id _ _))
    · intro hs
      cases hs
    · intro _ _ _
      obtain ⟨id, hid, -⟩ := hreported
      show c.deviceId ≠ none
      simp [hid]
    · intro _ hpending id hid
      exact (hframes id).trans_lt ((h.pending hclosed hpending id hid).trans_le (sampleRequestsTo_le_cons id _ _))
    · exact fun htrue => absurd (hclosed.symm.trans htrue) (by simp)
  · rw [if_neg hstate]
    exact h

theorem Inv.onSample (h : Inv c) (hclosed : c.closed = false) {streamIndex : ℕ} {sample : List UInt8}
    (hasked : streamIndex = c.streamIndex → c.state = .streaming → sample.length = c.mediaType.frameSize →
      c.samplePending = true) : Inv (c.onSample streamIndex sample) := by
  unfold CameraServer.onSample
  by_cases hskip : c.state ≠ .streaming ∨ streamIndex ≠ c.streamIndex
  · rw [if_pos hskip]
    exact h
  · rw [if_neg hskip]
    push Not at hskip
    by_cases hsize : sample.length = c.mediaType.frameSize
    · rw [if_neg (not_not_intro hsize)]
      exact h.frame hclosed hskip.1 (hasked hskip.2 hskip.1 hsize) hsize
    · rw [if_pos hsize]
      exact h.answered.dropDevice hclosed _

theorem Inv.onDevicePdu (h : Inv c) (hclosed : c.closed = false) (pdu : ClientPdu)
    (hasked : ∀ sample, pdu = .sampleResponse c.streamIndex sample → c.state = .streaming →
      sample.length = c.mediaType.frameSize → c.samplePending = true) : Inv (c.onDevicePdu pdu) := by
  match pdu with
  | .streamListResponse streams => exact h.onStreamList hclosed streams
  | .mediaTypeListResponse mediaTypes => exact h.onMediaTypeList hclosed mediaTypes
  | .successResponse => exact h.onStarted hclosed
  | .sampleResponse streamIndex sample =>
    apply h.onSample hclosed
    rintro rfl hstate hsize
    exact hasked sample rfl hstate hsize
  | .sampleErrorResponse _ _ | .errorResponse _ => exact h.dropDevice hclosed _
  | .selectVersionRequest _ | .deviceAdded _ _ | .deviceRemoved _ | .currentMediaTypeResponse _
  | .propertyListResponse _ | .propertyValueResponse _ => exact h

theorem Inv.onDevice (h : Inv c) (hclosed : c.closed = false) {message : List UInt8}
    (hasked : c.unasked message = false) :
    Inv (c.onDevice message) := by
  unfold CameraServer.onDevice
  cases hpdu : decodeClientPdu message with
  | error e => exact h.dropDevice hclosed _
  | ok pdu =>
    apply h.onDevicePdu hclosed
    rintro sample rfl hstate hsize
    simpa [unasked, hpdu, hstate, hsize] using hasked

theorem Inv.onDeviceOpened (h : Inv c) (hclosed : c.closed = false)
    (hreported : ∃ id, c.deviceId = some id ∧ id ∈ reportedOpen c.log)
    (hcurrent : current opens ends c.log = none) : Inv c.onDeviceOpened := by
  have hstreams : Inv { c with state := .streams } :=
    h.proceed hclosed .streams (by simp) hreported hcurrent rfl rfl rfl (by simp) rfl rfl
  exact (hstreams.sendDevice _).sendDevice _

/-! ### Enumerator messages -/

/-- The version is asked for, at any time. -/
theorem Inv.listen (h : Inv c) (version : ℕ) : Inv { c with version := version, state := .listening } where
  log := h.log
  channels := h.channels
  connecting := fun hs => by cases hs
  held := fun _ _ hs => absurd rfl hs
  talking := by
    intro _ htalking
    rcases htalking with hs | hs | hs | hs <;> cases hs
  streaming := fun _ hs => by cases hs
  on := by
    intro b hb
    obtain ⟨hclosed, -, hreported⟩ := h.on b hb
    exact ⟨hclosed, .inr rfl, hreported⟩
  pending := h.pending
  told := h.told

theorem Inv.onEnumeratorPdu (h : Inv c) (hclosed : c.closed = false) {pdu : ClientPdu}
    (hbeside : ∀ deviceName channelName, pdu = .deviceAdded deviceName channelName → c.state = .listening →
      c.deviceId = none) {c' : CameraServer} (heq : c.onEnumeratorPdu pdu = .ok c') : Inv c' := by
  match pdu with
  | .selectVersionRequest version =>
    unfold CameraServer.onEnumeratorPdu at heq
    by_cases hversion : version < version1
    · simp only [if_pos hversion] at heq
      cases heq
    · simp only [if_neg hversion] at heq
      cases heq
      exact (h.listen _).sendEnumerator _
  | .deviceAdded deviceName channelName =>
    unfold CameraServer.onEnumeratorPdu at heq
    by_cases hstate : c.state = .listening
    · simp only [if_pos hstate] at heq
      cases heq
      exact h.openDevice hclosed (hbeside deviceName channelName rfl hstate) deviceName channelName
    · simp only [if_neg hstate] at heq
      cases heq
      exact h.same rfl rfl rfl rfl rfl fun hpending => hpending
  | .deviceRemoved channelName =>
    have hspare : Inv { c with spare := c.spare.filter (·.2 ≠ channelName) } :=
      h.same rfl rfl rfl rfl rfl fun hpending => hpending
    unfold CameraServer.onEnumeratorPdu at heq
    dsimp only at heq
    split_ifs at heq
    · cases heq
      exact hspare.dropDevice hclosed _
    · cases heq
      exact hspare
  | .errorResponse _ => cases heq
  | .successResponse | .streamListResponse _ | .mediaTypeListResponse _ | .currentMediaTypeResponse _
  | .sampleResponse _ _ | .sampleErrorResponse _ _ | .propertyListResponse _ | .propertyValueResponse _ =>
    cases heq
    exact h

theorem Inv.onEnumerator (h : Inv c) (hclosed : c.closed = false) {message : List UInt8}
    (hbeside : c.beside message = false) : Inv (c.onEnumerator message) := by
  unfold CameraServer.onEnumerator
  split
  · next c' heq =>
    cases hpdu : decodeClientPdu message with
    | error e =>
      rw [hpdu] at heq
      cases heq
    | ok pdu =>
      rw [hpdu] at heq
      apply h.onEnumeratorPdu hclosed _ heq
      rintro deviceName channelName rfl hstate
      simpa [beside, hpdu, hstate] using hbeside
  · exact h.close _

/-! ### Calls -/

/-- Steps that only send keep what the log says. -/
structure Quiet (c c' : CameraServer) : Prop where
  deviceId : c'.deviceId = c.deviceId
  closed : c'.closed = c.closed
  state : c'.state = c.state
  stillOpen : stillOpen c'.log = stillOpen c.log
  current : current opens ends c'.log = current opens ends c.log
  events : emittedEvents c'.log = emittedEvents c.log
  log : LogInv c.log → LogInv c'.log

theorem Quiet.refl (c : CameraServer) : Quiet c c := ⟨rfl, rfl, rfl, rfl, rfl, rfl, id⟩

theorem Quiet.trans {c₁ c₂ c₃ : CameraServer} (h₁ : Quiet c₁ c₂) (h₂ : Quiet c₂ c₃) : Quiet c₁ c₃ where
  deviceId := h₂.deviceId.trans h₁.deviceId
  closed := h₂.closed.trans h₁.closed
  state := h₂.state.trans h₁.state
  stillOpen := h₂.stillOpen.trans h₁.stillOpen
  current := h₂.current.trans h₁.current
  events := h₂.events.trans h₁.events
  log := h₂.log ∘ h₁.log

theorem sendDevice_quiet (c : CameraServer) (pdu : ServerPdu) : Quiet c (c.sendDevice pdu) := by
  unfold CameraServer.sendDevice
  split
  · split_ifs
    · exact Quiet.refl c
    · exact ⟨rfl, rfl, rfl, rfl, rfl, rfl, fun hlog => hlog.cons_plain (plain_send _ _ _)⟩
  · exact Quiet.refl c

/-- What `stop` sends before it closes the device. -/
theorem stopping_quiet (c : CameraServer) :
    Quiet c ((if c.state = .streaming ∨ c.state = .starting then c.sendDevice .stopStreamsRequest else c).sendDevice
      .deactivateDeviceRequest) := by
  refine Quiet.trans ?_ (sendDevice_quiet _ _)
  split_ifs
  · exact sendDevice_quiet c _
  · exact Quiet.refl c

theorem closeDevice_current : current opens ends c.closeDevice.log = current opens ends c.log := by
  unfold closeDevice
  split
  · exact current_cons_other rfl rfl
  · rfl

theorem closeDevice_events : emittedEvents c.closeDevice.log = emittedEvents c.log := by
  unfold closeDevice
  split <;> rfl

/-- **A stop leaves no camera.** -/
theorem Inv.stop (h : Inv c) : Inv (c.note (.called .stop)).stop := by
  have hlog : LogInv (c.note (.called .stop)).log := h.log.cons_plain (plain_called _)
  have hcurrent : current opens ends (c.note (.called .stop)).log = none := current_cons_end rfl rfl
  unfold CameraServer.stop
  by_cases hdevice : c.deviceId = none
  · rw [if_pos (show (c.note (.called .stop)).deviceId = none from hdevice)]
    by_cases hclosed : c.closed = true
    · exact inv_closed hlog hclosed h.channels h.connecting hcurrent (h.told hclosed)
    · rw [not_eq_true] at hclosed
      refine inv_without_device hlog ?_ hdevice ?_ hcurrent fun htrue => h.told htrue
      · rcases h.channels with hopen | ⟨id, hid, -⟩
        · exact hopen
        · exact absurd (hdevice.symm.trans hid) (by simp)
      · intro _
        by_contra hneither
        push Not at hneither
        exact h.held hclosed hneither.2 hneither.1 hdevice
  · rw [if_neg (show (c.note (.called .stop)).deviceId ≠ none from hdevice)]
    have hquiet := stopping_quiet (c.note (.called .stop))
    dsimp only
    generalize CameraServer.sendDevice _ _ = left at hquiet ⊢
    have hleftOpen : stillOpen left.log = [] ∨ ∃ id, left.deviceId = some id ∧ stillOpen left.log = [id] := by
      rw [hquiet.stillOpen, hquiet.deviceId]
      exact h.channels
    have hclosing := stillOpen_closeDevice hleftOpen
    have hleftCurrent : current opens ends left.closeDevice.log = none :=
      closeDevice_current.trans (hquiet.current.trans hcurrent)
    have hleftLog := closeDevice_log (hquiet.log hlog)
    have hevents : emittedEvents left.closeDevice.log = emittedEvents c.log := closeDevice_events.trans hquiet.events
    have hleftClosed : left.closeDevice.closed = c.closed := closeDevice_closed.trans hquiet.closed
    by_cases hclosed : c.closed = true
    · refine inv_closed hleftLog (hleftClosed.trans hclosed) (.inl hclosing) (fun _ => closeDevice_deviceId)
        hleftCurrent ?_
      obtain ⟨reason, hreason⟩ := h.told hclosed
      exact ⟨reason, (congrArg List.head? hevents).trans hreason⟩
    · refine inv_without_device hleftLog hclosing closeDevice_deviceId (fun _ => .inl (if_neg hclosed)) hleftCurrent ?_
      exact fun htrue => absurd (hleftClosed.symm.trans htrue) hclosed

/-- An event of the dynamic channels. -/
theorem Inv.handle (h : Inv c) {event : DvcEvent} (hregular : c.regular (.handle event) = true) :
    Inv ((c.note (.called (.handle event))).handle event) := by
  have hcalled : Inv (c.note (.called (.handle event))) := h.called (by simp)
  unfold CameraServer.handle
  by_cases hconcerns : (c.note (.called (.handle event))).concerns event = true
  · rw [if_pos hconcerns]
    unfold concerns at hconcerns
    rw [and_eq_true, not_eq_true'] at hconcerns
    obtain ⟨hclosed, hone⟩ := hconcerns
    have hcl : c.closed = false := hclosed
    by_cases henumerator : channelOf event = some c.enumeratorId
    · rw [if_pos (show channelOf event = some (c.note (.called (.handle event))).enumeratorId from henumerator)]
      match event with
      | .channelOpened _ _ | .capabilitiesReady _ => exact hcalled
      | .channelOpenFailed _ _ _ => exact hcalled.close _
      | .channelClosed _ => exact hcalled.closedByClient _
      | .channelData id data =>
        apply hcalled.onEnumerator hclosed
        have hid : id = c.enumeratorId := Option.some.inj henumerator
        have hbeside : c.beside data = false := by simpa [regular, hcl, hid] using hregular
        exact hbeside
    · rw [if_neg (show channelOf event ≠ some (c.note (.called (.handle event))).enumeratorId from henumerator)]
      match event with
      | .capabilitiesReady _ => exact hcalled
      | .channelOpenFailed _ _ _ => exact hcalled.dropDevice hclosed _
      | .channelClosed _ => exact hcalled.dropDevice hclosed _
      | .channelOpened id name =>
        have hid : some id = c.deviceId := by
          simp only [channelOf, any_some, or_eq_true, decide_eq_true_eq] at hone
          exact hone.resolve_left fun he => henumerator (congrArg some he)
        apply hcalled.onDeviceOpened hclosed ⟨id, hid.symm, mem_cons_self⟩
        -- a camera that streams was reported open before
        have hcurrent : current opens ends (.called (.handle (.channelOpened id name)) :: c.log) =
            current opens ends c.log := current_cons_other rfl rfl
        show current opens ends (.called (.handle (.channelOpened id name)) :: c.log) = none
        rw [hcurrent]
        cases hnone : current opens ends c.log with
        | none => rfl
        | some b =>
          obtain ⟨-, -, device, hdevice, hreported⟩ := h.on b hnone
          obtain rfl : id = device := Option.some.inj (hid.trans hdevice)
          simp [regular, hreported, hdevice] at hregular
      | .channelData id data =>
        have hne : id ≠ c.enumeratorId := fun he => henumerator (congrArg some he)
        have hid : some id = c.deviceId := by
          simp only [channelOf, any_some, or_eq_true, decide_eq_true_eq] at hone
          exact hone.resolve_left hne
        apply hcalled.onDevice hclosed
        have hasked : c.unasked data = false := by simpa [regular, hcl, hne, hid] using hregular
        exact hasked
  · rw [if_neg hconcerns]
    exact hcalled

theorem Inv.call (h : Inv c) {what : CameraCall} (hregular : c.regular what = true) : Inv (c.call what) := by
  match what with
  | .handle event => exact h.handle hregular
  | .requestFrame => exact (h.called (by simp)).requestFrame
  | .stop => exact h.stop

theorem inv_create (ids : ℕ → ℕ) (options : CameraOptions) : Inv (create ids options) := by
  have hlog : LogInv [] := by
    refine ⟨apart_nil, ?_, fun id => le_rfl⟩
    intro newer device data older heq
    exact absurd heq (by simp)
  exact inv_without_device hlog rfl rfl (fun _ => .inr rfl) rfl fun htrue => by cases htrue

theorem run_inv : ∀ {calls : List CameraCall} {c : CameraServer}, Inv c → c.regularRun calls = true → Inv (c.run calls)
  | [], _, h, _ => h
  | what :: calls, c, h, hregular => by
    obtain ⟨hfirst, hrest⟩ := (and_eq_true _ _).mp hregular
    exact @run_inv calls (c.call what) (h.call hfirst) hrest

/-! ### After the end -/

/-- A call after the end says nothing. -/
theorem call_closed (hclosed : c.closed = true) (what : CameraCall) :
    (c.call what).closed = true ∧ emittedEvents (c.call what).log = emittedEvents c.log := by
  match what with
  | .handle event =>
    have hnot : (c.note (.called (.handle event))).concerns event = false := by
      unfold concerns
      rw [show (c.note (.called (.handle event))).closed = true from hclosed]
      rfl
    show ((c.note _).handle event).closed = true ∧ emittedEvents ((c.note _).handle event).log = _
    unfold CameraServer.handle
    rw [if_neg (by simp [hnot])]
    exact ⟨hclosed, rfl⟩
  | .requestFrame =>
    show (CameraServer.requestFrame _).closed = true ∧ emittedEvents (CameraServer.requestFrame _).log = _
    unfold CameraServer.requestFrame
    split_ifs
    · exact ⟨hclosed, rfl⟩
    · exact ⟨(sendDevice_quiet _ _).closed.trans hclosed, (sendDevice_quiet _ _).events⟩
  | .stop =>
    show (CameraServer.stop _).closed = true ∧ emittedEvents (CameraServer.stop _).log = _
    unfold CameraServer.stop
    by_cases hdevice : c.deviceId = none
    · rw [if_pos (show (c.note (.called .stop)).deviceId = none from hdevice)]
      exact ⟨hclosed, rfl⟩
    · rw [if_neg (show (c.note (.called .stop)).deviceId ≠ none from hdevice)]
      have hquiet := stopping_quiet (c.note (.called .stop))
      exact ⟨closeDevice_closed.trans (hquiet.closed.trans hclosed), closeDevice_events.trans hquiet.events⟩

theorem run_closed : ∀ (calls : List CameraCall) {c : CameraServer}, c.closed = true →
    emittedEvents (c.run calls).log = emittedEvents c.log
  | [], _, _ => rfl
  | what :: calls, c, hclosed => by
    obtain ⟨hstill, hevents⟩ := call_closed hclosed what
    exact (run_closed calls hstill).trans hevents

/-! ### The result -/

/-- One camera at a time, one sample at a time. -/
structure OneCamera (c : CameraServer) : Prop where
  /-- At most one device channel is open, and it is the current device's. -/
  channels : stillOpen c.log = [] ∨ ∃ id, c.deviceId = some id ∧ stillOpen c.log = [id]
  /-- Between two cameras that are opened there is a close or a stop. -/
  apart : Spans.Apart opens ends c.log
  /-- A frame is one of the camera that is open, in its media type. -/
  framed : ∀ newer device data older, c.log = newer ++ .emitted device (.frame data) :: older →
    ∃ mid deviceName mediaType rest, older = mid ++ .emitted device (.opened deviceName mediaType) :: rest ∧
      (∀ x ∈ mid, ends x = false) ∧ data.length = mediaType.frameSize
  asked : ∀ id, framesOf id c.log ≤ sampleRequestsTo id c.log
  /-- The end is the last event. -/
  silent : c.closed = true → (∃ reason, (emittedEvents c.log).head? = some (.closed reason)) ∧
    ∀ calls, emittedEvents (c.run calls).log = emittedEvents c.log

/-- A frame comes after the camera was opened. -/
theorem LogInv.framed_after {log : List CameraEntry} (h : LogInv log) {newer older : List CameraEntry}
    {device : Option ℕ} {data : List UInt8} (heq : log = newer ++ .emitted device (.frame data) :: older) :
    ∃ mid deviceName mediaType rest, older = mid ++ .emitted device (.opened deviceName mediaType) :: rest ∧
      (∀ x ∈ mid, ends x = false) ∧ data.length = mediaType.frameSize := by
  obtain ⟨mediaType, hcurrent, hsize⟩ := h.framed newer device data older heq
  obtain ⟨mid, e, rest, rfl, hopens, hmid⟩ := current_eq_some hcurrent
  unfold opens at hopens
  split at hopens
  · next deviceName mediaType' =>
    obtain ⟨rfl, rfl⟩ := Prod.mk.inj (Option.some.inj hopens)
    exact ⟨mid, deviceName, mediaType', rest, rfl, hmid, hsize⟩
  · cases hopens

/-- **One camera at a time, one sample at a time**, after any calls in which no
camera is announced to a server that listens beside its camera and no sample
comes that was not asked for. -/
theorem run_oneCamera (ids : ℕ → ℕ) (options : CameraOptions) (calls : List CameraCall)
    (h : (create ids options).regularRun calls = true) : OneCamera ((create ids options).run calls) := by
  have hinv := run_inv (inv_create ids options) h
  refine ⟨hinv.channels, hinv.log.apart, ?_, hinv.log.asked, ?_⟩
  · intro newer device data older heq
    exact hinv.log.framed_after heq
  · exact fun hclosed => ⟨hinv.told hclosed, fun calls' => run_closed calls' hclosed⟩

/-! ### The two defects -/

/-- A client that speaks version 2 and announces the camera `name`, on channel 0. -/
def announces (name : UInt8) : List CameraCall :=
  [.handle (.channelData 0 [2, 0x03]), .handle (.channelData 0 [2, 0x05, 0, 0, name, 0])]

/-- A one-pixel camera on channel 1, up to its first sample. -/
def streams : List CameraCall :=
  announces 97 ++
    [.handle (.channelOpened 1 .a),
     .handle (.channelData 1 [2, 0x0A, 1, 0, 1, 1, 0]),
     .handle (.channelData 1 [2, 0x0C, 6, 1, 0, 0, 0, 1, 0, 0, 0, 30, 0, 0, 0, 1, 0, 0, 0, 1, 0, 0, 0, 1, 0, 0, 0, 0]),
     .handle (.channelData 1 [2, 0x01]),
     .handle (.channelData 1 [2, 0x12, 0, 7, 7, 7])]

theorem run_oneCamera_streams : OneCamera ((create id {}).run streams) :=
  run_oneCamera id {} streams (by decide +kernel)

/-- **A second version request leaves two cameras open, and an unasked sample is a frame too many.** -/
theorem two_cameras :
    ¬ OneCamera ((create id {}).run (announces 97 ++ announces 98)) ∧
      ¬ OneCamera ((create id {}).run (streams ++ [.handle (.channelData 1 [2, 0x12, 0, 7, 7, 7])])) := by
  refine ⟨fun h => ?_, fun h => ?_⟩
  · have hopen : stillOpen ((create id {}).run (announces 97 ++ announces 98)).log = [2, 1] := by decide +kernel
    rcases h.channels with hnone | ⟨device, -, hone⟩
    · rw [hopen] at hnone
      cases hnone
    · rw [hopen] at hone
      cases hone
  · have hframes : framesOf 1 ((create id {}).run
        (streams ++ [.handle (.channelData 1 [2, 0x12, 0, 7, 7, 7])])).log = 2 := by decide +kernel
    have hrequests : sampleRequestsTo 1 ((create id {}).run
        (streams ++ [.handle (.channelData 1 [2, 0x12, 0, 7, 7, 7])])).log = 1 := by decide +kernel
    have hasked := h.asked 1
    rw [hframes, hrequests] at hasked
    exact absurd hasked (by decide)

end CameraServer
end Server
end Farland
