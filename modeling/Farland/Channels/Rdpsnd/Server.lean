/-
# The audio output server

The server side of audio output (`channels/rdpsnd_server.cpp`): formats,
quality mode and training, then samples and their confirmations. An assertion
that fails is `none`.

Once the client's formats are in, they and the client's version stay as they
are, whatever the client sends (`Settled`).

Key theorems: `receive_returns`, `sendWave_returns`.
-/
import Farland.Channels.Rdpsnd.Pdu
import Farland.Lib.Returns

namespace Farland
namespace Channels
namespace Rdpsnd

def timestamp16 (ms : ℕ) : ℕ := ms % 2 ^ 16

structure Ready where
  clientVersion : ℕ
  clientFlags : ℕ
  formats : List AudioFormat
  qualityMode : Option ℕ
  trainingRoundTripMs : ℕ
  deriving DecidableEq

structure WaveConfirmed where
  blockNo : ℕ
  timestamp : ℕ
  /-- The timestamp of the sample with this block number as sent, if known. -/
  sentTimestamp : Option ℕ
  deriving DecidableEq

inductive RdpsndEvent where
  | ready (event : Ready)
  | unavailable (reason : String)
  | waveConfirmed (event : WaveConfirmed)
  deriving DecidableEq

structure RdpsndServerConfig where
  formats : List AudioFormat
  version : ℕ := windows8
  trainingDataSize : ℕ := 0
  deriving DecidableEq

inductive State where
  | idle
  | waitingFormats
  | training
  | ready
  | unavailable
  deriving DecidableEq

structure RdpsndServer where
  config : RdpsndServerConfig
  state : State := .idle
  client : ClientFormats := {}
  qualityMode : Option ℕ := none
  trainingTimestamp : ℕ := 0
  trainingSentMs : ℕ := 0
  lastBlock : ℕ := 0
  /-- The timestamp of each of the 256 block numbers as last sent. -/
  sentTimestamps : ℕ → Option ℕ := fun _ => none
  output : List (List UInt8) := []
  events : List RdpsndEvent := []
  error : Option Error := none

namespace RdpsndServer

/-- The constructor. -/
def create (config : RdpsndServerConfig) : Option RdpsndServer := do
  asserts (config.formats ≠ [] ∧ config.formats.length ≤ maxFormats)
  pure { config := config }

variable (s : RdpsndServer)

def queue (pdu : ServerPdu) : Option RdpsndServer := do
  let message ← encodeServerPdu pdu
  pure { s with output := s.output ++ [message] }

def start : Option RdpsndServer := do
  asserts (s.state = .idle)
  let s ← { s with lastBlock := 0xFF }.queue (.serverFormats s.config.version 0xFF s.config.formats)
  pure { s with state := .waitingFormats }

def notify (event : RdpsndEvent) : RdpsndServer := { s with events := s.events ++ [event] }

/-- The Training PDU is part of the initialization sequence. -/
def train (nowMs : ℕ) : Option RdpsndServer := do
  let s ← { s with trainingTimestamp := timestamp16 nowMs, trainingSentMs := nowMs }.queue
    (.training (timestamp16 nowMs) s.config.trainingDataSize)
  pure { s with state := .training }

def handleClientFormats (pdu : ClientFormats) (nowMs : ℕ) :
    Option (Result Unit × RdpsndServer) :=
  if s.state ≠ .waitingFormats then
    some (fail .invalidValue "unexpected Client Audio Formats and Version PDU", s)
  else if !pdu.formats.all (· ∈ s.config.formats) then
    some (fail .invalidValue "client audio format the server did not offer", s)
  else
    let s := { s with client := pdu }
    -- without TSSNDCAPS_ALIVE there is no data transfer
    if pdu.flags &&& alive = 0 then
      some (.ok (), { s with state := .unavailable }.notify
        (.unavailable "the client cannot play audio (no TSSNDCAPS_ALIVE)"))
    else if pdu.formats = [] then
      some (.ok (), { s with state := .unavailable }.notify
        (.unavailable "no audio format in common with the client"))
    else (s.train nowMs).map fun s => (.ok (), s)

def handleQualityMode (mode : ℕ) : Result Unit × RdpsndServer :=
  if s.state = .idle ∨ s.state = .waitingFormats then
    (fail .invalidValue "Quality Mode PDU before the client's formats", s)
  else (.ok (), { s with qualityMode := some mode })

/-- A wrong echo makes only the round trip meaningless. -/
def handleTrainingConfirm (timestamp nowMs : ℕ) : Result Unit × RdpsndServer :=
  if s.state ≠ .training then (fail .invalidValue "unexpected Training Confirm PDU", s)
  else
    (.ok (), { s with state := .ready }.notify (.ready
      { clientVersion := s.client.version
        clientFlags := s.client.flags
        formats := s.client.formats
        qualityMode := s.qualityMode
        trainingRoundTripMs :=
          if timestamp = s.trainingTimestamp then toUnsigned 32 (nowMs - s.trainingSentMs) else 0 }))

def handleWaveConfirm (timestamp blockNo : ℕ) : Result Unit × RdpsndServer :=
  if s.state ≠ .ready then (fail .invalidValue "Wave Confirm PDU before the data transfer sequence", s)
  else (.ok (), s.notify (.waveConfirmed ⟨blockNo, timestamp, s.sentTimestamps blockNo⟩))

def handle (pdu : ClientPdu) (nowMs : ℕ) : Option (Result Unit × RdpsndServer) :=
  match pdu with
  | .clientFormats pdu => s.handleClientFormats pdu nowMs
  | .qualityMode mode => some (s.handleQualityMode mode)
  | .trainingConfirm timestamp _ => some (s.handleTrainingConfirm timestamp nowMs)
  | .waveConfirm timestamp blockNo => some (s.handleWaveConfirm timestamp blockNo)

/-- An error is final. -/
def keepError (result : Result Unit) : Result Unit × RdpsndServer :=
  match result with
  | .ok () => (.ok (), s)
  | .error e => (.error e, { s with error := some e })

/-- Processes one client message received at `nowMs`. -/
def receive (message : List UInt8) (nowMs : ℕ) : Option (Result Unit × RdpsndServer) :=
  match s.error with
  | some e => some (.error e, s)
  | none =>
    match decodeClientPdu message with
    | .error e => some (s.keepError (.error e))
    | .ok pdu => (s.handle pdu nowMs).map fun done => done.2.keepError done.1

def usesWave2 : Bool := windows8 ≤ s.config.version && windows8 ≤ s.client.version

/-- The sample with its block number, one more than the last and wrapping after 255. -/
def wave (formatNo : ℕ) (data : List UInt8) (nowMs : ℕ) : Wave where
  timestamp := timestamp16 nowMs
  formatNo := formatNo
  blockNo := (s.lastBlock + 1) % 2 ^ 8
  data := data

/-- Notes the block number and the timestamp of a sample. -/
def stamp (wave : Wave) : RdpsndServer :=
  { s with
    lastBlock := wave.blockNo
    sentTimestamps := fun block => if block = wave.blockNo then some wave.timestamp else s.sentTimestamps block }

/-- Queues one audio sample and returns its block number. -/
def sendWave (formatNo : ℕ) (data : List UInt8) (nowMs audioTimestampMs : ℕ) :
    Option (ℕ × RdpsndServer) := do
  asserts (s.state = .ready ∧ formatNo < s.client.formats.length)
  let wave := s.wave formatNo data nowMs
  let s := s.stamp wave
  if s.usesWave2 then
    let s ← s.queue (.wave2 ⟨wave.timestamp, formatNo, wave.blockNo, audioTimestampMs, data⟩)
    pure (wave.blockNo, s)
  else
    let (info, rest) ← encodeWave wave
    pure (wave.blockNo, { s with output := s.output ++ [info, rest] })

def sendClose : Option RdpsndServer := s.queue .close

def takeOutput : List (List UInt8) × RdpsndServer := (s.output, { s with output := [] })

/-! ### No message aborts -/

/-- The formats are in, and the training may be confirmed. -/
def Open : Prop := s.state = .training ∨ s.state = .ready

/-- What a step keeps: what the client said once the sequence is open, and the
state once it is ready. -/
structure Settled (s s' : RdpsndServer) : Prop where
  config : s'.config = s.config
  client : s.Open → s'.client = s.client
  ready : s.state = .ready → s'.state = .ready
  limited : s.client.formats.length ≤ maxFormats → s'.client.formats.length ≤ maxFormats

variable {s : RdpsndServer}

/-- A PDU that can be encoded is queued, and nothing else changes. -/
theorem queue_returns {pdu : ServerPdu} (h : (encodeServerPdu pdu).isSome = true) :
    Returns (s.queue pdu) fun s' => ∃ message, s' = { s with output := s.output ++ [message] } := by
  obtain ⟨message, hmessage⟩ := Option.isSome_iff_exists.mp h
  refine ⟨{ s with output := s.output ++ [message] }, ?_, message, rfl⟩
  unfold queue
  rw [hmessage]
  rfl

theorem encode_training (timestamp : ℕ) {dataSize : ℕ} (h : dataSize ≤ 65000) :
    (encodeServerPdu (.training timestamp dataSize)).isSome = true := by
  have hpack : (if dataSize = 0 then 0 else headerSize + 4 + dataSize) ≤ 0xFFFF := by
    split_ifs
    · exact Nat.zero_le _
    · unfold headerSize
      omega
  unfold encodeServerPdu
  simp only [asserts, if_pos hpack, Option.bind_eq_bind, Option.bind_some]
  rw [encodePdu_isSome_iff]
  simp only [List.length_append, Writer.u16le_length, Writer.zeros_length]
  omega

/-- What the events that a message adds say: the client's formats are those the server has. -/
def Tells (s : RdpsndServer) : RdpsndEvent → Prop
  | .ready event => s.state = .ready ∧ event.formats = s.client.formats
  | _ => True

/-- The result of a message: one event at most, which is true. -/
structure Handled (s s' : RdpsndServer) : Prop where
  settled : Settled s s'
  events : ∃ added, s'.events = s.events ++ added ∧ ∀ event ∈ added, s'.Tells event
  /-- The sequence becomes ready with its event only. -/
  readied : s'.state = .ready → s.state = .ready ∨ s.state = .training

variable {s' : RdpsndServer}

/-- What was true of the formats stays true. -/
theorem Tells.keep {event : RdpsndEvent} (h : s.Tells event) (hsettled : Settled s s') : s'.Tells event := by
  match event with
  | .ready event => exact ⟨hsettled.ready h.1, h.2.trans (congrArg _ (hsettled.client (.inr h.1)).symm)⟩
  | .unavailable _ | .waveConfirmed _ => exact trivial

/-- All queued events are true after a message if they were before. -/
theorem Handled.tells (h : Handled s s') (hs : ∀ event ∈ s.events, s.Tells event) :
    ∀ event ∈ s'.events, s'.Tells event := by
  obtain ⟨added, hadded, htells⟩ := h.events
  intro event hevent
  rw [hadded, List.mem_append] at hevent
  rcases hevent with hevent | hevent
  · exact (hs event hevent).keep h.settled
  · exact htells event hevent

theorem handled_same (hconfig : s'.config = s.config) (hclient : s'.client = s.client) (hstate : s'.state = s.state)
    (hevents : s'.events = s.events) : Handled s s' where
  settled := ⟨hconfig, fun _ => hclient, fun h => hstate.trans h, fun h => hclient ▸ h⟩
  events := ⟨[], by rw [hevents, List.append_nil], by simp⟩
  readied := fun h => .inl (hstate.symm.trans h)

theorem handleClientFormats_returns {pdu : ClientFormats} (nowMs : ℕ) (hsize : s.config.trainingDataSize ≤ 65000)
    (hlimited : pdu.formats.length ≤ maxFormats) :
    Returns (s.handleClientFormats pdu nowMs) fun done => Handled s done.2 := by
  have hnot : s.state = .waitingFormats → ¬ s.Open := by
    intro hstate hopen
    rcases hopen with hs | hs <;> rw [hstate] at hs <;> cases hs
  have hnever : s.state = .waitingFormats → s.state = .ready → False := by
    intro hstate hs
    rw [hstate] at hs
    cases hs
  unfold handleClientFormats
  refine Returns.ite (fun _ => Returns.some (handled_same rfl rfl rfl rfl)) fun hstate => ?_
  rw [not_not] at hstate
  refine Returns.ite (fun _ => Returns.some (handled_same rfl rfl rfl rfl)) fun _ => ?_
  have hunavailable : ∀ reason, Handled s
      ({ s with client := pdu, state := .unavailable }.notify (.unavailable reason)) := by
    intro reason
    refine ⟨⟨rfl, fun hopen => absurd hopen (hnot hstate), fun hs => (hnever hstate hs).elim, fun _ => hlimited⟩,
      ⟨_, rfl, ?_⟩, fun hs => by cases hs⟩
    intro event hevent
    rw [List.mem_singleton.mp hevent]
    exact trivial
  refine Returns.ite (fun _ => Returns.some (hunavailable _)) fun _ => ?_
  refine Returns.ite (fun _ => Returns.some (hunavailable _)) fun _ => ?_
  apply Returns.map
  unfold train
  refine Returns.bind (queue_returns (encode_training _ hsize)) fun s' hs' => ?_
  obtain ⟨message, rfl⟩ := hs'
  exact Returns.pure ⟨⟨rfl, fun hopen => absurd hopen (hnot hstate), fun hs => (hnever hstate hs).elim,
    fun _ => hlimited⟩,
    ⟨[], (List.append_nil _).symm, by simp⟩, fun hs => by cases hs⟩

theorem handleQualityMode_handled (mode : ℕ) : Handled s (s.handleQualityMode mode).2 := by
  unfold handleQualityMode
  split_ifs <;> exact handled_same rfl rfl rfl rfl

theorem handleTrainingConfirm_handled (timestamp nowMs : ℕ) :
    Handled s (s.handleTrainingConfirm timestamp nowMs).2 := by
  unfold handleTrainingConfirm
  by_cases hstate : s.state = .training
  · rw [if_neg (not_not_intro hstate)]
    refine ⟨⟨rfl, fun _ => rfl, fun _ => rfl, id⟩, ⟨_, rfl, ?_⟩, fun _ => .inr hstate⟩
    intro event hevent
    rw [List.mem_singleton.mp hevent]
    exact ⟨rfl, rfl⟩
  · rw [if_pos hstate]
    exact handled_same rfl rfl rfl rfl

theorem handleWaveConfirm_handled (timestamp blockNo : ℕ) : Handled s (s.handleWaveConfirm timestamp blockNo).2 := by
  unfold handleWaveConfirm
  split_ifs
  · exact handled_same rfl rfl rfl rfl
  · refine ⟨⟨rfl, fun _ => rfl, id, id⟩, ⟨_, rfl, ?_⟩, fun hs => .inl hs⟩
    intro event hevent
    rw [List.mem_singleton.mp hevent]
    exact trivial

theorem Handled.keepError (h : Handled s s') (result : Result Unit) : Handled s (s'.keepError result).2 := by
  unfold RdpsndServer.keepError
  cases result with
  | ok _ => exact h
  | error e => exact ⟨⟨h.settled.config, h.settled.client, h.settled.ready, h.settled.limited⟩, h.events, h.readied⟩

/-- **No message of the client aborts the server.** -/
theorem receive_returns (message : List UInt8) (nowMs : ℕ) (hsize : s.config.trainingDataSize ≤ 65000) :
    Returns (s.receive message nowMs) fun done => Handled s done.2 := by
  unfold receive
  cases s.error with
  | some e => exact Returns.some (handled_same rfl rfl rfl rfl)
  | none =>
    cases hpdu : decodeClientPdu message with
    | error e => exact Returns.some ((handled_same rfl rfl rfl rfl).keepError _)
    | ok pdu =>
      apply Returns.map
      have hlimited := decodeClientPdu_limited hpdu
      match pdu with
      | .clientFormats pdu =>
        exact (handleClientFormats_returns nowMs hsize hlimited).mono fun done h => h.keepError _
      | .qualityMode mode => exact Returns.some ((handleQualityMode_handled mode).keepError _)
      | .trainingConfirm timestamp _ => exact Returns.some ((handleTrainingConfirm_handled timestamp nowMs).keepError _)
      | .waveConfirm timestamp blockNo => exact Returns.some ((handleWaveConfirm_handled timestamp blockNo).keepError _)

/-! ### Samples -/

/-- What a sample leaves as it was. -/
structure Sent (s s' : RdpsndServer) : Prop where
  config : s'.config = s.config
  client : s'.client = s.client
  state : s'.state = s.state
  events : s'.events = s.events

/-- The samples that the encoding in use can carry. -/
def Carries (s : RdpsndServer) (data : List UInt8) : Prop :=
  if s.usesWave2 then data.length ≤ 65523 else 4 < data.length ∧ data.length ≤ 65527

/-- **A sample that its encoding can carry is sent.** -/
theorem sendWave_returns {formatNo : ℕ} {data : List UInt8} (nowMs audioTimestampMs : ℕ) (hready : s.state = .ready)
    (hformat : formatNo < s.client.formats.length) (hdata : s.Carries data) :
    Returns (s.sendWave formatNo data nowMs audioTimestampMs) fun sent => Sent s sent.2 := by
  unfold sendWave
  refine Returns.bind (P := fun _ => True) ⟨(), asserts_eq_some.mpr ⟨hready, hformat⟩, trivial⟩ fun _ _ => ?_
  have hsame : (s.stamp (s.wave formatNo data nowMs)).usesWave2 = s.usesWave2 := rfl
  unfold Carries at hdata
  refine Returns.ite (fun h2 => ?_) fun h2 => ?_
  · rw [hsame] at h2
    rw [if_pos h2] at hdata
    refine Returns.bind (queue_returns (encodeWave2_isSome_iff.mpr hdata)) fun s' hs' => ?_
    obtain ⟨message, rfl⟩ := hs'
    exact Returns.pure ⟨rfl, rfl, rfl, rfl⟩
  · rw [hsame] at h2
    rw [if_neg h2] at hdata
    obtain ⟨pair, hpair⟩ := Option.isSome_iff_exists.mp
      ((@encodeWave_isSome_iff (s.wave formatNo data nowMs)).mpr hdata)
    refine Returns.bind (P := fun _ => True) ⟨pair, hpair, trivial⟩ fun _ _ => ?_
    exact Returns.pure ⟨rfl, rfl, rfl, rfl⟩

theorem sendClose_returns : Returns s.sendClose fun s' => Sent s s' :=
  (@queue_returns s .close rfl).mono fun s' hs' => by
    obtain ⟨message, rfl⟩ := hs'
    exact ⟨rfl, rfl, rfl, rfl⟩

end RdpsndServer
end Rdpsnd
end Channels
end Farland
