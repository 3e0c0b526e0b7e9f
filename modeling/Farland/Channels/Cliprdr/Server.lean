/-
# The clipboard channel server

`ClipboardServer` of `channels/cliprdr_server.cpp`: the capabilities, one
request of the server's outstanding at a time with its deadline, the client's
requests handed out one after the other, and the events for the caller.
Messages are PDUs here, as `decode` gives them; `output` holds those to be
sent. `decodeFileList` reads the data of FileGroupDescriptorW.

Key theorems: `receive_outcome`, `tick_outcome`, `answer_waiting`.
-/
import Farland.Base.Text

namespace Farland
namespace Channels
namespace Cliprdr

open LittleEndian Reader

abbrev Bytes := List UInt8

/-- Points on the steady clock, in milliseconds. -/
abbrev Time := ℕ

/-! ### PDUs -/

/-- CLIPRDR_GENERAL_CAPABILITY generalFlags, [MS-RDPECLIP] 2.2.2.1.1.1. -/
def streamFileclipEnabled : ℕ := 0x04
def canLockClipdata : ℕ := 0x10
def hugeFileSupportEnabled : ℕ := 0x20

/-- Registered format names, mapped by name. -/
def fileGroupDescriptorW : Text := text "FileGroupDescriptorW"
def htmlFormat : Text := text "HTML Format"
def pngFormat : Text := text "PNG"

/-- Standard clipboard format ids. -/
def cfText : ℕ := 1
def cfOemText : ℕ := 7
def cfDib : ℕ := 8
def cfUnicodeText : ℕ := 13
def cfDibv5 : ℕ := 17

/-- A Clipboard Format ID and name pair; the name is empty for formats
without one. -/
structure Format where
  id : ℕ
  name : Text := []
  deriving DecidableEq

/-- dwFlags of CLIPRDR_FILECONTENTS_REQUEST. -/
def fileContentsSize : ℕ := 1
def fileContentsRange : ℕ := 2

structure FileContentsRequest where
  streamId : ℕ := 0
  /-- The file's position in the file list. -/
  index : ℕ := 0
  flags : ℕ := fileContentsRange
  position : ℕ := 0
  requested : ℕ := 0
  clipDataId : Option ℕ := none
  deriving DecidableEq

inductive Pdu where
  | capabilities (generalFlags : Option ℕ)
  | monitorReady
  | tempDirectory (path : Text)
  | formatList (formats : List Format)
  | formatListResponse (ok : Bool)
  | lockClipData (clipDataId : ℕ)
  | unlockClipData (clipDataId : ℕ)
  | formatDataRequest (formatId : ℕ)
  | formatDataResponse (ok : Bool) (data : Bytes)
  | fileContentsRequest (request : FileContentsRequest)
  | fileContentsResponse (ok : Bool) (streamId : ℕ) (data : Bytes)
  deriving DecidableEq

/-! ### File lists -/

/-- FD_FILESIZE: the descriptor declares the size. -/
def fdFileSize : ℕ := 0x40
def fileAttributeDirectory : ℕ := 0x10

structure FileDescriptor where
  flags : ℕ := 0
  attributes : ℕ := 0
  lastWriteTime : ℕ := 0
  size : ℕ := 0
  name : Text
  deriving DecidableEq

def maxFileListItems : ℕ := 16384
def fileDescriptorSize : ℕ := 592
def pathFieldSize : ℕ := 520

def readFileDescriptor : Parse FileDescriptor := do
  let flags ← u32le
  skip 32
  let attributes ← u32le
  skip 16
  let lastWriteTime ← u64le
  let high ← u32le
  let low ← u32le
  let name ← bytes pathFieldSize
  return { flags, attributes, lastWriteTime, size := high <<< 32 ||| low, name := utf16leToUtf8 name }

/-- The list must fill the data. -/
def readFileList : Parse (List FileDescriptor) := do
  let count ← u32le
  let r ← get
  if maxFileListItems < count then Parse.fail .limitExceeded "too many files in the clipboard file list" 0
  else if r.remaining ≠ count * fileDescriptorSize then
    Parse.fail .invalidLength "clipboard file list size disagrees with cItems" 0
  else readMany readFileDescriptor count

def decodeFileList (data : Bytes) : Result (List FileDescriptor) := (readFileList { rest := data }).map (·.1)

/-! ### The server -/

structure ServerConfig where
  /-- The general capability flags offered; features need both sides. -/
  generalFlags : ℕ := 0x02 ||| 0x04 ||| 0x08 ||| 0x10 ||| 0x20
  requestTimeout : Time := 30000
  answerTimeout : Time := 30000
  maxQueuedRequests : ℕ := 32
  maxLocks : ℕ := 64
  deriving DecidableEq

inductive ServerEvent where
  | ready (flags : ℕ)
  | remoteFormatList (formats : List Format)
  | formatListAnswered (ok : Bool)
  | dataRequested (id formatId : ℕ)
  | fileContentsRequested (id : ℕ) (request : FileContentsRequest)
  | dataReceived (data : Option Bytes)
  | fileContentsReceived (streamId : ℕ) (data : Option Bytes)
  | locked (clipDataId : ℕ)
  | unlocked (clipDataId : ℕ)
  deriving DecidableEq

inductive State where
  | idle | waitingCaps | ready
  deriving DecidableEq

inductive ClientRequest where
  | formatData (formatId : ℕ)
  | fileContents (request : FileContentsRequest)
  deriving DecidableEq

/-- A request of the client's and the id that `answer` must repeat. -/
structure Incoming where
  id : ℕ
  request : ClientRequest
  deriving DecidableEq

/-- The server's outstanding request. -/
structure Outgoing where
  fileContents : Bool
  request : FileContentsRequest
  deadline : Time
  deriving DecidableEq

structure ClipboardServer where
  config : ServerConfig := {}
  state : State := .idle
  clientFlags : ℕ := 0
  pendingAnnouncement : Option (List Format) := none
  announced : List Format := []
  announcementRefused : Bool := false
  incoming : List Incoming := []
  currentHandedOut : Bool := false
  currentSince : Time := 0
  lastNow : Time := 0
  nextRequestId : ℕ := 1
  outgoing : Option Outgoing := none
  /-- Until then a late answer to a request that timed out may come. -/
  dataQuarantineUntil : Option Time := none
  nextStreamId : ℕ := 1
  locks : List ℕ := []
  output : List Pdu := []
  events : List ServerEvent := []
  error : Option Error := none
  deriving DecidableEq

variable {s s' s'' : ClipboardServer}

namespace ClipboardServer

/-- General flags both sides set. -/
def flags (s : ClipboardServer) : ℕ := s.config.generalFlags &&& s.clientFlags

def has (s : ClipboardServer) (flag : ℕ) : Bool := s.flags &&& flag == flag

def ready (s : ClipboardServer) : Bool := s.state == .ready

def send (s : ClipboardServer) (pdu : Pdu) : ClipboardServer := { s with output := s.output ++ [pdu] }

def emit (s : ClipboardServer) (event : ServerEvent) : ClipboardServer := { s with events := s.events ++ [event] }

def start (s : ClipboardServer) : ClipboardServer :=
  if s.state ≠ .idle then s
  else { (s.send (.capabilities (some s.config.generalFlags))).send .monitorReady with state := .waitingCaps }

/-- The desktop's clipboard changed. -/
def announce (s : ClipboardServer) (formats : List Format) : ClipboardServer :=
  if s.error.isSome then s
  else if s.ready = false then { s with pendingAnnouncement := some formats }
  else send { s with announced := formats, announcementRefused := false } (.formatList formats)

def becomeReady (s : ClipboardServer) : ClipboardServer :=
  if s.ready then s
  else
    let s := emit { s with state := .ready } (.ready s.flags)
    match s.pendingAnnouncement with
    | none => s
    | some pending => announce { s with pendingAnnouncement := none } pending

/-! ### The client's requests -/

def allowed (s : ClipboardServer) (incoming : Incoming) : Bool :=
  if s.announcementRefused then false
  else
    match incoming.request with
    | .formatData formatId => s.announced.any fun f => f.id == formatId
    | .fileContents request =>
      if s.has streamFileclipEnabled = false then false
      -- A locked file list outlives the announcement.
      else if request.clipDataId.any (· ∈ s.locks) then true
      else s.announced.any fun f => f.name == fileGroupDescriptorW

/-- CB_RESPONSE_FAIL for a request. -/
def refusal (incoming : Incoming) : Pdu :=
  match incoming.request with
  | .formatData _ => .formatDataResponse false []
  | .fileContents request => .fileContentsResponse false request.streamId []

/-- Hands out the first of the queued requests that may be answered, failing
those before it. -/
def nextRequestLoop (now : Time) : List Incoming → ClipboardServer → ClipboardServer
  | [], s => { s with incoming := [] }
  | front :: rest, s =>
    if s.allowed front then
      let s := { s with incoming := front :: rest, currentHandedOut := true, currentSince := now }
      match front.request with
      | .formatData formatId => s.emit (.dataRequested front.id formatId)
      | .fileContents request => s.emit (.fileContentsRequested front.id request)
    else nextRequestLoop now rest (s.send (refusal front))

def nextRequest (s : ClipboardServer) (now : Time) : ClipboardServer :=
  if s.currentHandedOut then s else nextRequestLoop now s.incoming s

def failCurrent (s : ClipboardServer) : ClipboardServer :=
  match s.incoming with
  | [] => s
  | front :: rest => { s.send (refusal front) with incoming := rest, currentHandedOut := false }

def queueRequest (s : ClipboardServer) (request : ClientRequest) (now : Time) : ClipboardServer × Option Error :=
  if s.config.maxQueuedRequests ≤ s.incoming.length then
    (s, some ⟨.limitExceeded, "too many clipboard requests waiting for an answer", 0⟩)
  else
    let s :=
      { s with
        incoming := s.incoming ++ [⟨s.nextRequestId, request⟩], nextRequestId := (s.nextRequestId + 1) % 2 ^ 64 }
    (if s.currentHandedOut then s else s.nextRequest now, none)

/-- The response to a handed-out request; a size is 8 bytes, a range at most
what was requested. -/
def response (request : ClientRequest) (data : Option Bytes) : Pdu :=
  match request with
  | .formatData _ => .formatDataResponse data.isSome (data.getD [])
  | .fileContents request =>
    let data := if request.flags = fileContentsSize then data.filter (·.length == 8) else data
    .fileContentsResponse data.isSome request.streamId ((data.getD []).take request.requested)

/-- Answers the request with this id; `none` fails it. -/
def answer (s : ClipboardServer) (id : ℕ) (data : Option Bytes) : ClipboardServer :=
  if s.error.isSome ∨ s.currentHandedOut = false then s
  else
    match s.incoming with
    | [] => s
    | front :: rest =>
      if front.id ≠ id then s
      else nextRequest { s.send (response front.request data) with incoming := rest, currentHandedOut := false } s.lastNow

/-! ### The server's requests -/

def canRequest (s : ClipboardServer) (now : Time) : Bool :=
  s.error.isNone && s.ready && s.outgoing.isNone && s.dataQuarantineUntil.all (· ≤ now)

/-- Asks for the client's data; whether the request went out. -/
def requestData (s : ClipboardServer) (formatId : ℕ) (now : Time) : ClipboardServer × Bool :=
  if s.canRequest now then
    (send { s with dataQuarantineUntil := none, outgoing := some ⟨false, {}, now + s.config.requestTimeout⟩ }
      (.formatDataRequest formatId), true)
  else (s, false)

/-- Asks for a file's size or a range of it; the stream id. -/
def requestFileContents (s : ClipboardServer) (index flags position size : ℕ) (clipDataId : Option ℕ) (now : Time) :
    ClipboardServer × Option ℕ :=
  if s.canRequest now = false ∨ s.has streamFileclipEnabled = false ∨
      (flags ≠ fileContentsSize ∧ flags ≠ fileContentsRange) ∨
      (0xFFFFFFFF < (position + size) % 2 ^ 64 ∧ s.has hugeFileSupportEnabled = false) then (s, none)
  else
    let request : FileContentsRequest :=
      { streamId := s.nextStreamId, index, flags
        position := if flags = fileContentsRange then position else 0
        requested := if flags = fileContentsRange then size else 8
        clipDataId := if s.has canLockClipdata then clipDataId else none }
    (send { s with
      nextStreamId := (s.nextStreamId + 1) % 2 ^ 32, outgoing := some ⟨true, request, now + s.config.requestTimeout⟩ }
      (.fileContentsRequest request), some request.streamId)

def lock (s : ClipboardServer) (clipDataId : ℕ) : ClipboardServer :=
  if s.error.isNone && s.ready && s.has canLockClipdata then s.send (.lockClipData clipDataId) else s

def unlock (s : ClipboardServer) (clipDataId : ℕ) : ClipboardServer :=
  if s.error.isNone && s.ready && s.has canLockClipdata then s.send (.unlockClipData clipDataId) else s

/-! ### The client's messages -/

def handleFormatDataResponse (s : ClipboardServer) (ok : Bool) (data : Bytes) : ClipboardServer :=
  if s.outgoing.any fun o => ! o.fileContents then
    emit { s with outgoing := none } (.dataReceived (if ok then some data else none))
  -- The late answer to a request that timed out.
  else { s with dataQuarantineUntil := none }

def handleFileContentsResponse (s : ClipboardServer) (ok : Bool) (streamId : ℕ) (data : Bytes) :
    ClipboardServer × Option Error :=
  match s.outgoing with
  | none => (s, none)
  | some o =>
    if o.fileContents = false ∨ o.request.streamId ≠ streamId then (s, none)
    else if ok ∧ o.request.flags = fileContentsSize ∧ data.length ≠ 8 then
      ({ s with outgoing := none }, some ⟨.invalidLength, "file size response is not 8 bytes", 12⟩)
    else if ok ∧ o.request.requested < data.length then
      ({ s with outgoing := none }, some ⟨.invalidLength, "file range response longer than requested", 12⟩)
    else
      (emit { s with outgoing := none } (.fileContentsReceived o.request.streamId (if ok then some data else none)), none)

def handleLock (s : ClipboardServer) (clipDataId : ℕ) : ClipboardServer :=
  if s.has canLockClipdata ∧ s.locks.length < s.config.maxLocks ∧ clipDataId ∉ s.locks then
    emit { s with locks := s.locks ++ [clipDataId] } (.locked clipDataId)
  else s

def handleUnlock (s : ClipboardServer) (clipDataId : ℕ) : ClipboardServer :=
  if clipDataId ∈ s.locks then emit { s with locks := s.locks.erase clipDataId } (.unlocked clipDataId) else s

def handle (s : ClipboardServer) (now : Time) : Pdu → ClipboardServer × Option Error
  | .capabilities generalFlags =>
    (if s.state = .waitingCaps then becomeReady { s with clientFlags := generalFlags.getD 0 } else s, none)
  | .tempDirectory _ | .monitorReady => (s, none)
  | .formatList formats =>
    (emit { s.becomeReady.send (.formatListResponse true) with announced := [] } (.remoteFormatList formats), none)
  | .formatListResponse ok => (emit { s.becomeReady with announcementRefused := ! ok } (.formatListAnswered ok), none)
  | .formatDataRequest formatId => s.becomeReady.queueRequest (.formatData formatId) now
  | .fileContentsRequest request => s.becomeReady.queueRequest (.fileContents request) now
  | .formatDataResponse ok data => (s.becomeReady.handleFormatDataResponse ok data, none)
  | .fileContentsResponse ok streamId data => s.becomeReady.handleFileContentsResponse ok streamId data
  | .lockClipData clipDataId => (s.becomeReady.handleLock clipDataId, none)
  | .unlockClipData clipDataId => (s.becomeReady.handleUnlock clipDataId, none)

/-- The channel is dead. -/
def die (s : ClipboardServer) (e : Error) : ClipboardServer :=
  { s with error := some e, incoming := [], outgoing := none }

/-- One message of the client's, as `decode` gives it. -/
def receive (s : ClipboardServer) (pdu : Result Pdu) (now : Time) : ClipboardServer × Option Error :=
  if s.error.isSome then (s, s.error)
  else
    let s := { s with lastNow := now }
    if s.state = .idle then (s, none)
    else
      match pdu with
      | .error e => if e.code = .unsupported then (s, none) else (s.die e, some e)
      | .ok pdu =>
        match s.handle now pdu with
        | (s, none) => (s, none)
        | (s, some e) => (s.die e, some e)

/-! ### Timeouts -/

/-- The caller took too long to answer the client. -/
def expireCurrent (s : ClipboardServer) (now : Time) : ClipboardServer :=
  if s.currentHandedOut ∧ s.currentSince + s.config.answerTimeout ≤ now then s.failCurrent.nextRequest now else s

/-- The client took too long to answer. -/
def expireOutgoing (s : ClipboardServer) (now : Time) : ClipboardServer :=
  match s.outgoing with
  | none => s
  | some o =>
    if now < o.deadline then s
    else if o.fileContents then emit { s with outgoing := none } (.fileContentsReceived o.request.streamId none)
    else
      emit { s with outgoing := none, dataQuarantineUntil := some (now + s.config.requestTimeout) } (.dataReceived none)

def endQuarantine (s : ClipboardServer) (now : Time) : ClipboardServer :=
  if s.dataQuarantineUntil.any (· ≤ now) then { s with dataQuarantineUntil := none } else s

def tick (s : ClipboardServer) (now : Time) : ClipboardServer :=
  let s := { s with lastNow := now }
  if s.error.isSome then s else ((s.expireCurrent now).expireOutgoing now).endQuarantine now

/-! ### One answer for one request -/

/-- The events that answer a request of the server's. -/
def isAnswer : ServerEvent → Bool
  | .dataReceived _ | .fileContentsReceived _ _ => true
  | _ => false

def answers (s : ClipboardServer) : List ServerEvent := s.events.filter isAnswer

/-- Nothing was asked, and nothing answered. -/
structure Quiet (s s' : ClipboardServer) : Prop where
  outgoing : s'.outgoing = s.outgoing
  answers : s'.answers = s.answers

theorem Quiet.refl (s : ClipboardServer) : Quiet s s := ⟨rfl, rfl⟩

theorem Quiet.trans (h : Quiet s s') (h' : Quiet s' s'') : Quiet s s'' :=
  ⟨h'.outgoing.trans h.outgoing, h'.answers.trans h.answers⟩

theorem Quiet.emit (h : Quiet s s') {e : ServerEvent} (he : isAnswer e = false) :
    Quiet s (s'.emit e) :=
  ⟨h.outgoing, by simpa [ClipboardServer.answers, ClipboardServer.emit, he] using h.answers⟩

theorem announce_quiet (s : ClipboardServer) (formats : List Format) : Quiet s (s.announce formats) := by
  unfold announce
  split_ifs <;> exact ⟨rfl, rfl⟩

theorem becomeReady_quiet (s : ClipboardServer) : Quiet s s.becomeReady := by
  have ready : Quiet s (emit { s with state := .ready } (.ready s.flags)) := by
    refine Quiet.emit ?_ rfl
    exact ⟨rfl, rfl⟩
  unfold becomeReady
  split_ifs
  · exact .refl s
  · dsimp only
    split
    · exact ready
    · refine Quiet.trans ?_ (announce_quiet _ _)
      exact ⟨ready.outgoing, ready.answers⟩

theorem nextRequestLoop_quiet (now : Time) : ∀ (l : List Incoming) (s : ClipboardServer), Quiet s (nextRequestLoop now l s)
  | [], s => ⟨rfl, rfl⟩
  | front :: rest, s => by
    unfold nextRequestLoop
    split_ifs
    · dsimp only
      split
      all_goals
        refine Quiet.emit ?_ rfl
        exact ⟨rfl, rfl⟩
    · refine Quiet.trans ?_ (nextRequestLoop_quiet now rest (s.send (refusal front)))
      exact ⟨rfl, rfl⟩

theorem nextRequest_quiet (s : ClipboardServer) (now : Time) : Quiet s (s.nextRequest now) := by
  unfold nextRequest
  split_ifs
  · exact .refl s
  · exact nextRequestLoop_quiet now _ s

theorem failCurrent_quiet (s : ClipboardServer) : Quiet s s.failCurrent := by
  unfold failCurrent
  split <;> exact ⟨rfl, rfl⟩

theorem queueRequest_quiet (s : ClipboardServer) (request : ClientRequest) (now : Time) :
    Quiet s (s.queueRequest request now).1 := by
  unfold queueRequest
  split_ifs with h
  · exact .refl s
  · dsimp only
    split_ifs
    · exact ⟨rfl, rfl⟩
    · refine Quiet.trans ?_ (nextRequest_quiet _ now)
      exact ⟨rfl, rfl⟩

theorem answer_quiet (s : ClipboardServer) (id : ℕ) (data : Option Bytes) : Quiet s (s.answer id data) := by
  unfold answer
  split_ifs
  · exact .refl s
  · split
    · exact .refl s
    · split_ifs
      · exact .refl s
      · refine Quiet.trans ?_ (nextRequest_quiet _ _)
        exact ⟨rfl, rfl⟩

theorem lock_quiet (s : ClipboardServer) (clipDataId : ℕ) : Quiet s (s.lock clipDataId) := by
  unfold lock
  split_ifs <;> exact ⟨rfl, rfl⟩

theorem unlock_quiet (s : ClipboardServer) (clipDataId : ℕ) : Quiet s (s.unlock clipDataId) := by
  unfold unlock
  split_ifs <;> exact ⟨rfl, rfl⟩

theorem handleLock_quiet (s : ClipboardServer) (clipDataId : ℕ) : Quiet s (s.handleLock clipDataId) := by
  unfold handleLock
  split_ifs
  · refine Quiet.emit ?_ rfl
    exact ⟨rfl, rfl⟩
  · exact .refl s

theorem handleUnlock_quiet (s : ClipboardServer) (clipDataId : ℕ) : Quiet s (s.handleUnlock clipDataId) := by
  unfold handleUnlock
  split_ifs
  · refine Quiet.emit ?_ rfl
    exact ⟨rfl, rfl⟩
  · exact .refl s

/-- What an answer says about the request it answers. -/
def Answering (o : Outgoing) (e : ServerEvent) : Prop :=
  ∀ streamId data, e = .fileContentsReceived streamId (some data) →
    o.fileContents = true ∧ o.request.streamId = streamId ∧ data.length ≤ o.request.requested

/-- Nothing was answered, or the outstanding request was. -/
def Outcome (s s' : ClipboardServer) : Prop :=
  Quiet s s' ∨ ∃ o e, s.outgoing = some o ∧ s'.outgoing = none ∧ s'.answers = s.answers ++ [e] ∧ Answering o e

theorem Quiet.outcome (h : Quiet s s') (h' : Outcome s' s'') : Outcome s s'' := by
  rcases h' with h' | ⟨o, e, ho, hn, ha, hf⟩
  · exact .inl (h.trans h')
  · exact .inr ⟨o, e, h.outgoing ▸ ho, hn, h.answers ▸ ha, hf⟩

theorem Outcome.quiet (h : Outcome s s') (h' : Quiet s' s'') : Outcome s s'' := by
  rcases h with h | ⟨o, e, ho, hn, ha, hf⟩
  · exact .inl (h.trans h')
  · exact .inr ⟨o, e, ho, h'.outgoing.trans hn, h'.answers.trans ha, hf⟩

/-- The outstanding request is taken away and its answer queued. -/
theorem outcome_emit {o : Outgoing} {e : ServerEvent} (ho : s.outgoing = some o)
    (hn : s'.outgoing = none) (hs : s'.events = s.events) (he : isAnswer e = true) (ha : Answering o e) :
    Outcome s (s'.emit e) :=
  .inr ⟨o, e, ho, hn, by simp [answers, emit, hs, he], ha⟩

theorem handleFormatDataResponse_outcome (s : ClipboardServer) (ok : Bool) (data : Bytes) :
    Outcome s (s.handleFormatDataResponse ok data) := by
  unfold handleFormatDataResponse
  rcases ho : s.outgoing with _ | o
  · exact .inl ⟨ho.symm, rfl⟩
  · by_cases hf : o.fileContents = true
    · simp only [Option.any_some, hf]
      exact .inl ⟨ho.symm, rfl⟩
    · simp only [Option.any_some, hf]
      refine outcome_emit ho ?_ ?_ rfl ?_
      · rfl
      · rfl
      · rintro _ _ ⟨⟩

theorem handleFileContentsResponse_outcome (s : ClipboardServer) (ok : Bool) (streamId : ℕ) (data : Bytes)
    (h : (s.handleFileContentsResponse ok streamId data).2 = none) :
    Outcome s (s.handleFileContentsResponse ok streamId data).1 := by
  unfold handleFileContentsResponse at h ⊢
  rcases ho : s.outgoing with _ | o
  · exact .inl (.refl s)
  · simp only [ho] at h ⊢
    by_cases hs : o.fileContents = false ∨ o.request.streamId ≠ streamId
    · rw [if_pos hs]
      exact .inl (.refl s)
    · rw [if_neg hs] at h ⊢
      by_cases hsize : ok ∧ o.request.flags = fileContentsSize ∧ data.length ≠ 8
      · simp [hsize] at h
      · rw [if_neg hsize] at h ⊢
        by_cases hrange : ok ∧ o.request.requested < data.length
        · simp [hrange] at h
        · rw [if_neg hrange]
          refine outcome_emit ho ?_ ?_ rfl ?_
          · rfl
          · rfl
          · intro id d hd
            cases ok <;> simp_all

/-- **Handling a PDU answers the outstanding request or nothing.** -/
theorem handle_outcome (s : ClipboardServer) (now : Time) (pdu : Pdu) (h : (s.handle now pdu).2 = none) :
    Outcome s (s.handle now pdu).1 := by
  have ready := becomeReady_quiet s
  cases pdu with
  | capabilities flags =>
    simp only [handle]
    split_ifs
    · refine .inl (Quiet.trans ?_ (becomeReady_quiet _))
      exact ⟨rfl, rfl⟩
    · exact .inl (.refl s)
  | monitorReady | tempDirectory _ => exact .inl (.refl s)
  | formatList formats | formatListResponse ok =>
    refine .inl (Quiet.emit ?_ rfl)
    exact ⟨ready.outgoing, ready.answers⟩
  | lockClipData id => exact .inl (ready.trans (handleLock_quiet _ id))
  | unlockClipData id => exact .inl (ready.trans (handleUnlock_quiet _ id))
  | formatDataRequest id | fileContentsRequest request => exact .inl (ready.trans (queueRequest_quiet _ _ now))
  | formatDataResponse ok data => exact ready.outcome (handleFormatDataResponse_outcome _ ok data)
  | fileContentsResponse ok streamId data =>
    exact ready.outcome (handleFileContentsResponse_outcome _ ok streamId data h)

theorem receive_outcome (s : ClipboardServer) (pdu : Result Pdu) (now : Time) (h : (s.receive pdu now).2 = none) :
    Outcome s (s.receive pdu now).1 := by
  have heard : Quiet s { s with lastNow := now } := ⟨rfl, rfl⟩
  unfold receive at h ⊢
  by_cases herr : s.error.isSome
  · rw [if_pos herr]
    exact .inl (.refl s)
  · rw [if_neg herr] at h ⊢
    by_cases hidle : s.state = .idle
    · rw [if_pos hidle]
      exact .inl heard
    · rw [if_neg hidle] at h ⊢
      rcases pdu with e | pdu
      · dsimp only at h ⊢
        split_ifs at h ⊢
        exact .inl heard
      · dsimp only at h ⊢
        have handled := handle_outcome { s with lastNow := now } now pdu
        rcases hh : handle { s with lastNow := now } now pdu with ⟨s', _ | e⟩
        · rw [hh] at handled
          exact heard.outcome (handled rfl)
        · simp [hh] at h

theorem expireCurrent_quiet (s : ClipboardServer) (now : Time) : Quiet s (s.expireCurrent now) := by
  unfold expireCurrent
  split_ifs
  · exact (failCurrent_quiet s).trans (nextRequest_quiet _ now)
  · exact .refl s

theorem expireOutgoing_outcome (s : ClipboardServer) (now : Time) : Outcome s (s.expireOutgoing now) := by
  unfold expireOutgoing
  rcases ho : s.outgoing with _ | o
  · exact .inl (.refl s)
  · dsimp only
    split_ifs
    · exact .inl (.refl s)
    all_goals
      refine outcome_emit ho ?_ ?_ rfl ?_
      · rfl
      · rfl
      · simp [Answering]

theorem endQuarantine_quiet (s : ClipboardServer) (now : Time) : Quiet s (s.endQuarantine now) := by
  unfold endQuarantine
  split_ifs <;> exact ⟨rfl, rfl⟩

theorem tick_outcome (s : ClipboardServer) (now : Time) : Outcome s (s.tick now) := by
  have heard : Quiet s { s with lastNow := now } := ⟨rfl, rfl⟩
  unfold tick
  dsimp only
  split_ifs
  · exact .inl heard
  · refine (heard.trans (expireCurrent_quiet _ now)).outcome ?_
    exact (expireOutgoing_outcome _ now).quiet (endQuarantine_quiet _ now)

/-- A request for file contents is refused, or it is the outstanding one. -/
theorem requestFileContents_cases (s : ClipboardServer) (index flags position size : ℕ) (clipDataId : Option ℕ)
    (now : Time) :
    s.requestFileContents index flags position size clipDataId now = (s, none) ∨
      ∃ s' o, s.requestFileContents index flags position size clipDataId now = (s', some o.request.streamId) ∧
        s'.outgoing = some o ∧ s'.events = s.events ∧ s'.incoming = s.incoming ∧
        (flags = fileContentsRange → o.request.requested = size) := by
  unfold requestFileContents
  by_cases h : s.canRequest now = false ∨ s.has streamFileclipEnabled = false ∨
      (flags ≠ fileContentsSize ∧ flags ≠ fileContentsRange) ∨
      (0xFFFFFFFF < (position + size) % 2 ^ 64 ∧ s.has hugeFileSupportEnabled = false)
  · exact .inl (if_pos h)
  · rw [if_neg h]
    refine .inr ⟨_, ⟨true, _, _⟩, rfl, rfl, rfl, rfl, fun hf => ?_⟩
    exact if_pos hf

/-- A request for data is refused, or it is the outstanding one. -/
theorem requestData_cases (s : ClipboardServer) (formatId : ℕ) (now : Time) :
    s.requestData formatId now = (s, false) ∨
      ∃ s' o, s.requestData formatId now = (s', true) ∧ s'.outgoing = some o ∧ o.fileContents = false ∧
        s'.events = s.events := by
  unfold requestData
  split_ifs
  · exact .inr ⟨_, _, rfl, rfl, rfl, rfl⟩
  · exact .inl rfl

/-! ### Every event is polled -/

/-- Neither an event nor a request of the client's was added or taken. -/
structure Calm (s s' : ClipboardServer) : Prop where
  events : s'.events = s.events
  incoming : s'.incoming = s.incoming

theorem Calm.refl (s : ClipboardServer) : Calm s s := ⟨rfl, rfl⟩

theorem Calm.trans (h : Calm s s') (h' : Calm s' s'') : Calm s s'' :=
  ⟨h'.events.trans h.events, h'.incoming.trans h.incoming⟩

theorem Calm.answers (h : Calm s s') : s'.answers = s.answers := by
  rw [ClipboardServer.answers, h.events, ClipboardServer.answers]

theorem announce_calm (s : ClipboardServer) (formats : List Format) : Calm s (s.announce formats) := by
  unfold announce
  split_ifs <;> exact ⟨rfl, rfl⟩

theorem lock_calm (s : ClipboardServer) (clipDataId : ℕ) : Calm s (s.lock clipDataId) := by
  unfold lock
  split_ifs <;> exact ⟨rfl, rfl⟩

theorem unlock_calm (s : ClipboardServer) (clipDataId : ℕ) : Calm s (s.unlock clipDataId) := by
  unfold unlock
  split_ifs <;> exact ⟨rfl, rfl⟩

theorem requestFileContents_calm (s : ClipboardServer) (index flags position size : ℕ) (clipDataId : Option ℕ)
    (now : Time) : Calm s (s.requestFileContents index flags position size clipDataId now).1 := by
  rcases requestFileContents_cases s index flags position size clipDataId now with h | ⟨s', o, h, -, he, hi, -⟩
  · rw [h]
    exact .refl s
  · rw [h]
    exact ⟨he, hi⟩

/-- What is left to hand out: events, and requests of the client's. -/
def waiting (s : ClipboardServer) : ℕ := s.events.length + s.incoming.length

theorem Calm.waiting (h : Calm s s') : s'.waiting = s.waiting := by
  rw [ClipboardServer.waiting, h.events, h.incoming, ClipboardServer.waiting]

theorem nextRequestLoop_waiting (now : Time) : ∀ (l : List Incoming) (s : ClipboardServer),
    (nextRequestLoop now l s).waiting ≤ s.events.length + l.length + 1
  | [], s => by simp [nextRequestLoop, waiting]
  | front :: rest, s => by
    unfold nextRequestLoop
    split_ifs
    · dsimp only
      split <;> simp [waiting, emit] <;> omega
    · have := nextRequestLoop_waiting now rest (s.send (refusal front))
      simp only [send, List.length_cons] at this ⊢
      omega

/-- Answering the client hands out no more than it takes from the queue. -/
theorem answer_waiting (s : ClipboardServer) (id : ℕ) (data : Option Bytes) : (s.answer id data).waiting ≤ s.waiting := by
  unfold answer
  split_ifs
  · rfl
  · rcases hi : s.incoming with _ | ⟨front, rest⟩
    · rfl
    · dsimp only
      split_ifs
      · rfl
      · unfold nextRequest
        simp only [Bool.false_eq_true, if_false]
        have := nextRequestLoop_waiting s.lastNow rest
          { s.send (response front.request data) with incoming := rest, currentHandedOut := false }
        simp only [waiting, hi, send] at this ⊢
        omega

end ClipboardServer
end Cliprdr
end Channels
end Farland
