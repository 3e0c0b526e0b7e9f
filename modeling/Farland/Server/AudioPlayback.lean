/-
# Audio output of a session

The choice of a format, the packets and their pace (`server/audio_playback.cpp`)
over the audio output server. The Opus encoder is an interface: it has a
state, and returns packets of at most 4000 bytes. An assertion that fails, or
an encoder that is used but not there, is `none`. Statistics and logs, which
nothing reads back, are left out; times are in nanoseconds, durations in
milliseconds.

`packets` is not in the source: the format number of every packet that was
sent, and the format it is encoded in.

A client below version 8 gets its packets as WaveInfo and Wave, which cannot
carry a sample of four bytes or less, and nothing keeps an Opus packet of that
length back: `fits` says that none comes.

Key theorems: `play_isSome_iff`, `short_packet`.
-/
import Farland.Channels.Rdpsnd.Server

namespace Farland
namespace Server

open Channels.Rdpsnd List Option Nat Bool RdpsndServer

/-- `audio::PcmFormat`. -/
structure PcmFormat where
  rate : ℕ := 48000
  channels : ℕ := 2
  deriving DecidableEq

namespace PcmFormat

def frames (f : PcmFormat) (ms : ℕ) : ℕ := f.rate * ms / 1000

/-- Samples of all channels. -/
def samples (f : PcmFormat) (ms : ℕ) : ℕ := f.frames ms * f.channels

end PcmFormat

/-- `audio::Encoder`, for Opus. -/
structure OpusEncoder (E : Type) where
  encode : E → List ℤ → List UInt8 × E
  setBitrate : E → ℕ → E
  encode_le : ∀ e packet, (encode e packet).1.length ≤ 4000

structure AudioPlaybackOptions where
  packetDuration : ℕ := 20
  maxBacklog : ℕ := 100
  minLimit : ℕ := 400
  hardLimit : ℕ := 1000
  confirmTimeout : ℕ := 2000
  silenceTimeout : ℕ := 1000
  deriving DecidableEq

inductive PlaybackEvent where
  | ready (capture : PcmFormat) (codec : String)
  | unavailable (reason : String)
  deriving DecidableEq

/-- A sample that awaits its confirmation. -/
structure InFlightWave where
  block : ℕ
  sent : ℤ
  deriving DecidableEq

def floorWindow : ℤ := 5000000000
def maxPending : ℕ := 200

def milliseconds (ns : ℤ) : ℤ := ns.tdiv 1000000

def pcm48 : AudioFormat := pcmFormat 48000 2
def pcm44 : AudioFormat := pcmFormat 44100 2
def pcm22 : AudioFormat := pcmFormat 22050 2

/-- The sizes are nominal: Opus packets vary in size. -/
def opusFormat : AudioFormat where
  tag := FormatTag.opus
  channels := 2
  samplesPerSec := 48000
  avgBytesPerSec := 12000
  blockAlign := 4
  bitsPerSample := 16

def describe (format : AudioFormat) (opus : Bool) (bitrate : ℕ) : String :=
  let layout := if format.channels = 1 then "mono" else "stereo"
  if opus then
    "Opus " ++ toString format.samplesPerSec ++ " Hz " ++ layout ++ " at " ++ toString (bitrate / 1000) ++ " kbit/s"
  else
    "PCM " ++ toString format.samplesPerSec ++ " Hz " ++ layout ++ " 16-bit (" ++
      toString (format.avgBytesPerSec * 8 / 1000) ++ " kbit/s)"

structure AudioPlayback (E : Type) where
  options : AudioPlaybackOptions := {}
  opus : Option E
  rdpsnd : RdpsndServer
  epoch : ℤ := 0
  events : List PlaybackEvent := []
  formatNo : Option ℕ := none
  capture : PcmFormat := {}
  useOpus : Bool := false
  qualityMode : ℕ := Quality.dynamic
  bandwidthKbps : Option ℕ := none
  pending : List ℤ := []
  inFlight : List InFlightWave := []
  floorCurrent : Option ℕ := none
  floorPrevious : Option ℕ := none
  floorWindowStart : ℤ := 0
  silent : ℕ := 0
  idle : Bool := false
  /-- The messages sent, in order. -/
  sent : List (List UInt8) := []
  packets : List (ℕ × AudioFormat) := []

namespace AudioPlayback

variable {E : Type} (codec : OpusEncoder E)

def formatsToOffer (opus : Bool) : List AudioFormat := (if opus then [opusFormat] else []) ++ [pcm48, pcm44, pcm22]

/-- The constructor, with the encoder that the factory made, if any. -/
def create (options : AudioPlaybackOptions) (opus : Option E) : Option (AudioPlayback E) := do
  let rdpsnd ← RdpsndServer.create { formats := formatsToOffer opus.isSome }
  pure { options := options, opus := opus, rdpsnd := rdpsnd }

variable (s : AudioPlayback E)

def flush : AudioPlayback E :=
  { s with sent := s.sent ++ s.rdpsnd.output, rdpsnd := { s.rdpsnd with output := [] } }

def start (s : AudioPlayback E) (now : ℤ) : Option (AudioPlayback E) := do
  let rdpsnd ← s.rdpsnd.start
  pure { s with epoch := now, floorWindowStart := now, rdpsnd := rdpsnd }.flush

def millis (t : ℤ) : ℕ := toUnsigned 32 (milliseconds (t - s.epoch))

/-! ### The choice of a format -/

/-- `opus_bitrate`: about a twentieth of the link. -/
def opusBitrate : ℕ :=
  if s.qualityMode = Quality.high then 128000
  else if s.qualityMode = Quality.medium then 64000
  else
    match s.bandwidthKbps with
    | none => 96000
    | some kbps => min (max (kbps * 1000 % 2 ^ 32 / 20) 32000) 128000

/-- The formats in the order in which they are wanted. -/
def order : List AudioFormat :=
  let pcmKbps := pcm48.avgBytesPerSec * 8 / 1000
  let pcmFits := s.bandwidthKbps.all (4 * pcmKbps ≤ ·)
  if s.qualityMode = Quality.high && pcmFits then [pcm48, pcm44, opusFormat, pcm22]
  else [opusFormat, pcm48, pcm44, pcm22]

/-- The first wanted format that the client has, with its place in the client's list. -/
def firstCommon (opus : Bool) (formats : List AudioFormat) : List AudioFormat → Option (ℕ × AudioFormat)
  | [] => none
  | wanted :: rest =>
    if wanted.tag = FormatTag.opus && !opus then firstCommon opus formats rest
    else
      match formats.findIdx? (· = wanted) with
      | some found => some (found, wanted)
      | none => firstCommon opus formats rest

def useFormat (found : ℕ) (wanted : AudioFormat) : AudioPlayback E :=
  let s := { s with
    formatNo := some (found % 2 ^ 16)
    useOpus := wanted.tag = FormatTag.opus
    capture := ⟨wanted.samplesPerSec, wanted.channels⟩ }
  let s := { s with opus := if s.useOpus then s.opus.map (codec.setBitrate · s.opusBitrate) else none }
  { s with events := s.events ++ [.ready s.capture (describe wanted s.useOpus s.opusBitrate)] }

def chooseFormat (ready : Ready) : AudioPlayback E :=
  let s := { s with qualityMode := ready.qualityMode.getD Quality.dynamic }
  match firstCommon s.opus.isSome ready.formats s.order with
  | some (found, wanted) => s.useFormat codec found wanted
  | none => { s with events := s.events ++ [.unavailable "no usable audio format in common with the client"] }

def setBandwidth (kbps : Option ℕ) : AudioPlayback E :=
  if kbps = s.bandwidthKbps then s
  else
    let s := { s with bandwidthKbps := kbps }
    { s with opus := if s.useOpus then s.opus.map (codec.setBitrate · s.opusBitrate) else s.opus }

/-! ### Confirmations -/

/-- Audio sent but not confirmed. -/
def unconfirmed : ℕ := s.options.packetDuration * s.inFlight.length

/-- The window in which the lowest backlog counts moves on. -/
def moveWindow (now : ℤ) : AudioPlayback E :=
  if floorWindow < now - s.floorWindowStart then
    { s with floorPrevious := s.floorCurrent, floorCurrent := none, floorWindowStart := now }
  else s

/-- Clients confirm in order: this block, and any older one still listed. -/
def onConfirm (confirm : WaveConfirmed) (now : ℤ) : AudioPlayback E :=
  match s.inFlight.dropWhile (·.block ≠ confirm.blockNo) with
  | [] => s
  | _ :: rest =>
    let s := { s with inFlight := rest }.moveWindow now
    { s with
      floorCurrent :=
        if s.floorCurrent.all (s.unconfirmed < ·) then some s.unconfirmed else s.floorCurrent }

def onEvent (now : ℤ) : RdpsndEvent → AudioPlayback E
  | .ready event => s.chooseFormat codec event
  | .unavailable reason => { s with events := s.events ++ [.unavailable reason] }
  | .waveConfirmed event => s.onConfirm event now

/-- One reassembled message from the client. -/
def receive (s : AudioPlayback E) (message : List UInt8) (now : ℤ) : Option (Result Unit × AudioPlayback E) := do
  let (result, rdpsnd) ← s.rdpsnd.receive message (s.millis now)
  match result with
  | .error e => pure (.error e, { s with rdpsnd := rdpsnd })
  | .ok () =>
    let drained := { s with rdpsnd := { rdpsnd with events := [] } }
    pure (.ok (), (rdpsnd.events.foldl (fun s event => s.onEvent codec now event) drained).flush)

/-! ### Packets -/

/-- Forgets the samples that count as lost, and says whether the backlog is too long for one more. -/
def shouldDrop (now : ℤ) : AudioPlayback E × Bool :=
  let s := { s with inFlight := s.inFlight.dropWhile fun wave =>
    (s.options.confirmTimeout : ℤ) * 1000000 < now - wave.sent }
  let backlog := s.unconfirmed + s.options.packetDuration
  let floor := match s.floorPrevious with
    | some previous => if s.floorCurrent.all (previous < ·) then some previous else s.floorCurrent
    | none => s.floorCurrent
  let limit := match floor with
    | some floor => min (max (floor + s.options.maxBacklog) s.options.minLimit) s.options.hardLimit
    | none => s.options.minLimit
  (s, max limit s.options.packetDuration < backlog)

/-- Counts silence. -/
def listen (packet : List ℤ) : AudioPlayback E :=
  if packet.all (· = 0) then { s with silent := s.silent + s.options.packetDuration }
  else { s with silent := 0, idle := false }

/-- The audio stopped. -/
def hush : Option (AudioPlayback E) :=
  if s.idle then some s
  else do
    let rdpsnd ← s.rdpsnd.sendClose
    pure { s with rdpsnd := rdpsnd, idle := true }

/-- The data of one packet, in the format in use. -/
def encode (s : AudioPlayback E) (packet : List ℤ) : Option (List UInt8 × AudioPlayback E) :=
  if s.useOpus then
    s.opus.map fun e => ((codec.encode e packet).1, { s with opus := some (codec.encode e packet).2 })
  else some (packet.flatMap fun sample => Writer.u16le (toUnsigned 16 sample), s)

/-- What `send_packet` does up to the data it sends, if it sends any. -/
def preparePacket (packet : List ℤ) (now : ℤ) :
    Option (Option (List UInt8) × AudioPlayback E) := do
  let heard := s.listen packet
  if packet.all (· = 0) && heard.options.silenceTimeout ≤ heard.silent then
    let s ← heard.hush
    pure (none, s)
  else if (heard.shouldDrop now).2 then pure (none, (heard.shouldDrop now).1)
  else do
    let (data, s) ← (heard.shouldDrop now).1.encode codec packet
    -- an empty Opus packet is dropped
    if s.useOpus && data.isEmpty then pure (none, s) else pure (some data, s)

/-- The format that packets are encoded in. -/
def format : AudioFormat :=
  if s.useOpus then opusFormat else pcmFormat s.capture.rate s.capture.channels

def sendData (formatNo : ℕ) (data : List UInt8) (now : ℤ) : Option (AudioPlayback E) := do
  let (block, rdpsnd) ← s.rdpsnd.sendWave formatNo data (s.millis now) (toUnsigned 32 (milliseconds now))
  pure { s with
    rdpsnd := rdpsnd
    inFlight := s.inFlight ++ [⟨block, now⟩]
    packets := s.packets ++ [(formatNo, s.format)] }

def sendPacket (packet : List ℤ) (now : ℤ) : Option (AudioPlayback E) :=
  match s.formatNo with
  | none => some s
  | some formatNo => do
    match ← s.preparePacket codec packet now with
    | (none, s) => pure s
    | (some data, s) => s.sendData formatNo data now

/-- The whole packets of what is pending; `fuel` is a bound on their number. -/
def sendPackets (packet : ℕ) (now : ℤ) : ℕ → AudioPlayback E → Option (AudioPlayback E)
  | 0, s => some s
  | fuel + 1, s =>
    if s.pending.length < packet then some s
    else do
      let s ← s.sendPacket codec (s.pending.take packet) now
      sendPackets packet now fuel { s with pending := s.pending.drop packet }

/-- What is pending with new samples. More than `maxPending` means the caller
pushes faster than real time; the oldest goes. -/
def gather (samples : List ℤ) : AudioPlayback E :=
  let pending := s.pending ++ samples
  let limit := s.capture.samples maxPending
  if limit < pending.length then
    { s with pending := pending.drop ((pending.length - limit) / s.capture.channels * s.capture.channels) }
  else { s with pending := pending }

def push (samples : List ℤ) (now : ℤ) : Option (AudioPlayback E) :=
  if s.formatNo = none then some s
  else do
    let packet := s.capture.samples s.options.packetDuration
    asserts (0 < packet)
    let s := s.gather samples
    let s ← sendPackets codec packet now s.pending.length s
    pure s.flush

/-! ### Runs -/

inductive Call where
  | receive (message : List UInt8) (now : ℤ)
  | push (samples : List ℤ) (now : ℤ)
  | setBandwidth (kbps : Option ℕ)
  deriving DecidableEq

def call : Call → Option (AudioPlayback E)
  | .receive message now => (s.receive codec message now).map (·.2)
  | .push samples now => s.push codec samples now
  | .setBandwidth kbps => some (s.setBandwidth codec kbps)

def run (calls : List Call) : Option (AudioPlayback E) := calls.foldlM (call codec) s

variable (opus : Option E) (now : ℤ)

/-- Audio output with its default options, started. -/
def started : Option (AudioPlayback E) := do
  let s ← create {} opus
  s.start now

/-- A whole session: started, then called. -/
def play (calls : List Call) : Option (AudioPlayback E) :=
  (started opus now).bind (·.run codec calls)

/-- Whether an Opus packet is about to be sent that its encoding cannot carry. -/
def shortPacket (packet : List ℤ) (now : ℤ) : Bool :=
  match s.formatNo, s.preparePacket codec packet now with
  | some _, some (some data, s) => s.useOpus && !s.rdpsnd.usesWave2 && data.length ≤ 4
  | _, _ => false

def fitsPackets (packet : ℕ) (now : ℤ) : ℕ → AudioPlayback E → Bool
  | 0, _ => true
  | fuel + 1, s =>
    if s.pending.length < packet then true
    else
      !s.shortPacket codec (s.pending.take packet) now &&
        (s.sendPacket codec (s.pending.take packet) now).all fun s =>
          fitsPackets packet now fuel { s with pending := s.pending.drop packet }

/-- No Opus packet of one to four bytes is due for a client below version 8. -/
def fits : Call → Bool
  | .push samples now =>
    s.formatNo = none || fitsPackets codec (s.capture.samples s.options.packetDuration) now
      (s.gather samples).pending.length (s.gather samples)
  | _ => true

def fitsRun (s : AudioPlayback E) : List Call → Bool
  | [] => true
  | what :: calls => s.fits codec what && (s.call codec what).all fun s => s.fitsRun calls

/-- No Opus packet of one to four bytes is ever due for a client below version 8. -/
def playFits (calls : List Call) : Bool :=
  (started opus now).all (·.fitsRun codec calls)

/-! ### What every call keeps -/

/-- Samples in 20 milliseconds of the formats offered. -/
def Offered (f : PcmFormat) : Prop := f = ⟨48000, 2⟩ ∨ f = ⟨44100, 2⟩ ∨ f = ⟨22050, 2⟩

theorem offered_samples {f : PcmFormat} (h : Offered f) : 4 < f.samples 20 ∧ f.samples 20 ≤ 1920 := by
  rcases h with rfl | rfl | rfl <;> decide

structure Good (s : AudioPlayback E) : Prop where
  options : s.options = {}
  training : s.rdpsnd.config.trainingDataSize = 0
  told : ∀ event ∈ s.rdpsnd.events, s.rdpsnd.Tells event
  limited : s.rdpsnd.client.formats.length ≤ maxFormats
  encoder : s.useOpus = true → s.opus.isSome = true
  /-- The format in use is the one that its number names. -/
  chosen : ∀ n, s.formatNo = some n →
    s.rdpsnd.state = .ready ∧ s.rdpsnd.client.formats[n]? = some s.format ∧ Offered s.capture
  packets : s.packets ≠ [] → s.rdpsnd.state = .ready
  numbers : ∀ p ∈ s.packets, s.rdpsnd.client.formats[p.1]? = some p.2

variable {codec} {s : AudioPlayback E} {s' : AudioPlayback E}

/-- Fields that the invariant does not read may change, and the server as a sample changes it. -/
theorem Good.same (h : Good s) (hsent : RdpsndServer.Sent s.rdpsnd s'.rdpsnd) (hoptions : s'.options = s.options)
    (hformat : s'.formatNo = s.formatNo) (hcapture : s'.capture = s.capture) (huse : s'.useOpus = s.useOpus)
    (hopus : s.opus.isSome = true → s'.opus.isSome = true) (hpackets : s'.packets = s.packets) : Good s' where
  options := hoptions.trans h.options
  training := (congrArg _ hsent.config).trans h.training
  told := by
    rw [hsent.events]
    exact fun event hevent => (h.told event hevent).keep
      ⟨hsent.config, fun _ => hsent.client, fun hs => hsent.state.trans hs, fun hl => hsent.client ▸ hl⟩
  limited := by rw [hsent.client]; exact h.limited
  encoder := fun hu => hopus (h.encoder (huse ▸ hu))
  chosen := by
    intro n hn
    have hsame : s'.format = s.format := by unfold format; rw [huse, hcapture]
    rw [hsent.state, hsent.client, hsame, hcapture]
    exact h.chosen n (hformat ▸ hn)
  packets := by rw [hpackets, hsent.state]; exact h.packets
  numbers := by rw [hpackets, hsent.client]; exact h.numbers

theorem sent_refl (r : RdpsndServer) : RdpsndServer.Sent r r := ⟨rfl, rfl, rfl, rfl⟩

theorem Good.flush (h : Good s) : Good s.flush :=
  ⟨h.options, h.training, h.told, h.limited, h.encoder, h.chosen, h.packets, h.numbers⟩

/-! ### The choice of a format -/

theorem order_offered (s : AudioPlayback E) {f : AudioFormat} (h : f ∈ s.order) :
    f = opusFormat ∨ f = pcm48 ∨ f = pcm44 ∨ f = pcm22 := by
  unfold order at h
  dsimp only at h
  split_ifs at h <;> simp only [mem_cons] at h <;> tauto

variable {wanted : AudioFormat}

theorem firstCommon_spec {opus : Bool} {formats : List AudioFormat} {found : ℕ} :
    ∀ {wants : List AudioFormat}, firstCommon opus formats wants = some (found, wanted) →
      wanted ∈ wants ∧ formats[found]? = some wanted ∧ (wanted.tag = FormatTag.opus → opus = true)
  | [], h => by cases h
  | first :: rest, h => by
    unfold firstCommon at h
    by_cases hskip : (decide (first.tag = FormatTag.opus) && !opus) = true
    · rw [if_pos hskip] at h
      obtain ⟨hmem, hat, hopus⟩ := firstCommon_spec h
      exact ⟨mem_cons_of_mem _ hmem, hat, hopus⟩
    · rw [if_neg hskip] at h
      split at h
      · next place hplace =>
        obtain ⟨rfl, rfl⟩ := Prod.mk.inj (Option.some.inj h)
        obtain ⟨hlt, hwanted, -⟩ := findIdx?_eq_some_iff_getElem.mp hplace
        refine ⟨mem_cons_self, ?_, ?_⟩
        · rw [getElem?_eq_getElem hlt, of_decide_eq_true hwanted]
        · intro htag
          simpa [htag] using hskip
      · obtain ⟨hmem, hat, hopus⟩ := firstCommon_spec h
        exact ⟨mem_cons_of_mem _ hmem, hat, hopus⟩

/-- A format that was wanted is in use under its own name. -/
theorem useFormat_format (codec : OpusEncoder E) (s : AudioPlayback E) (found : ℕ)
    (h : wanted = opusFormat ∨ wanted = pcm48 ∨ wanted = pcm44 ∨ wanted = pcm22) :
    (s.useFormat codec found wanted).format = wanted ∧ Offered (s.useFormat codec found wanted).capture := by
  rcases h with rfl | rfl | rfl | rfl
  · exact ⟨rfl, .inl rfl⟩
  · exact ⟨rfl, .inl rfl⟩
  · exact ⟨rfl, .inr (.inl rfl)⟩
  · exact ⟨rfl, .inr (.inr rfl)⟩

theorem useFormat_opus (s : AudioPlayback E) (found : ℕ) (hopus : wanted.tag = FormatTag.opus → s.opus.isSome = true)
    (huse : (s.useFormat codec found wanted).useOpus = true) : (s.useFormat codec found wanted).opus.isSome = true := by
  have htag : wanted.tag = FormatTag.opus := of_decide_eq_true huse
  have hsome := hopus htag
  simpa [useFormat, htag] using hsome

theorem Good.chooseFormat (h : Good s) {ready : Ready} (hstate : s.rdpsnd.state = .ready)
    (hformats : ready.formats = s.rdpsnd.client.formats) : Good (s.chooseFormat codec ready) := by
  unfold AudioPlayback.chooseFormat
  dsimp only
  split
  · next found wanted hfirst =>
    obtain ⟨hmem, hat, hopus⟩ := firstCommon_spec hfirst
    have hoffered := order_offered _ hmem
    obtain ⟨hformat, hcapture⟩ := useFormat_format codec
      { s with qualityMode := ready.qualityMode.getD Quality.dynamic } found hoffered
    have hfound : found % 2 ^ 16 = found := by
      obtain ⟨hlt, -⟩ := List.getElem?_eq_some_iff.mp hat
      rw [hformats] at hlt
      have hle := h.limited
      unfold maxFormats at hle
      exact mod_eq_of_lt (by omega)
    refine ⟨h.options, h.training, h.told, h.limited, useFormat_opus _ found hopus, ?_, h.packets, h.numbers⟩
    intro n hn
    obtain rfl : found % 2 ^ 16 = n := Option.some.inj hn
    refine ⟨hstate, ?_, hcapture⟩
    rw [hformat, hfound]
    show s.rdpsnd.client.formats[found]? = some wanted
    rw [← hformats]
    exact hat
  · exact h.same (sent_refl _) rfl rfl rfl rfl id rfl

theorem Good.setBandwidth (h : Good s) (kbps : Option ℕ) : Good (s.setBandwidth codec kbps) := by
  unfold AudioPlayback.setBandwidth
  by_cases hsame : kbps = s.bandwidthKbps
  · rw [if_pos hsame]
    exact h
  · rw [if_neg hsame]
    refine h.same (sent_refl _) rfl rfl rfl rfl ?_ rfl
    intro hsome
    dsimp only
    split_ifs
    · rwa [isSome_map]
    · exact hsome

theorem Good.onConfirm (h : Good s) (confirm : WaveConfirmed) (now : ℤ) : Good (s.onConfirm confirm now) := by
  unfold AudioPlayback.onConfirm
  split
  · exact h
  · unfold moveWindow
    split_ifs <;> exact h.same (sent_refl _) rfl rfl rfl rfl id rfl

theorem Good.onEvent (h : Good s) (codec : OpusEncoder E) (now : ℤ) {event : RdpsndEvent}
    (htells : s.rdpsnd.Tells event) :
    Good (s.onEvent codec now event) ∧ (s.onEvent codec now event).rdpsnd = s.rdpsnd := by
  match event with
  | .ready event =>
    refine ⟨h.chooseFormat htells.1 htells.2, ?_⟩
    show (s.chooseFormat codec event).rdpsnd = _
    unfold AudioPlayback.chooseFormat
    dsimp only
    split <;> rfl
  | .unavailable reason => exact ⟨h.same (sent_refl _) rfl rfl rfl rfl id rfl, rfl⟩
  | .waveConfirmed event =>
    refine ⟨h.onConfirm event now, ?_⟩
    show (s.onConfirm event now).rdpsnd = _
    unfold AudioPlayback.onConfirm moveWindow
    split
    · rfl
    · split_ifs <;> rfl

theorem Good.onEvents : ∀ {events : List RdpsndEvent} {s : AudioPlayback E}, Good s →
    (∀ event ∈ events, s.rdpsnd.Tells event) → Good (events.foldl (fun s event => s.onEvent codec now event) s)
  | [], _, h, _ => h
  | event :: events, s, h, htells => by
    obtain ⟨hgood, hrdpsnd⟩ := h.onEvent codec now (htells event mem_cons_self)
    refine @Good.onEvents events (s.onEvent codec now event) hgood fun later hlater => ?_
    rw [hrdpsnd]
    exact htells later (mem_cons_of_mem _ hlater)

/-- **No message aborts.** -/
theorem Good.receive (h : Good s) (message : List UInt8) (now : ℤ) :
    Returns (s.receive codec message now) fun done => Good done.2 := by
  unfold AudioPlayback.receive
  refine Returns.bind (receive_returns message (s.millis now) (by rw [h.training]; omega)) fun done
    hdone => ?_
  obtain ⟨result, rdpsnd⟩ := done
  have hkept : ∀ events, (∀ event ∈ events, rdpsnd.Tells event) →
      Good { s with rdpsnd := { rdpsnd with events := events } } := by
    intro events hevents
    have hclient : s.rdpsnd.state = .ready → rdpsnd.client = s.rdpsnd.client :=
      fun hs => hdone.settled.client (.inr hs)
    refine ⟨h.options, (congrArg _ hdone.settled.config).trans h.training, hevents, hdone.settled.limited h.limited,
      h.encoder, ?_, ?_, ?_⟩
    · intro n hn
      obtain ⟨hstate, hformat, hcapture⟩ := h.chosen n hn
      refine ⟨hdone.settled.ready hstate, ?_, hcapture⟩
      show rdpsnd.client.formats[n]? = some s.format
      rw [hclient hstate]
      exact hformat
    · exact fun hp => hdone.settled.ready (h.packets hp)
    · intro p hp
      show rdpsnd.client.formats[p.1]? = some p.2
      rw [hclient (h.packets (ne_nil_of_mem hp))]
      exact h.numbers p hp
  have htold := hdone.tells h.told
  cases result with
  | error e => exact Returns.pure (hkept rdpsnd.events htold)
  | ok _ =>
    apply Returns.pure
    apply Good.flush
    exact Good.onEvents now (hkept [] (by simp)) htold

/-! ### Packets -/

/-- What the steps before a packet is sent keep. -/
structure Kept (s s' : AudioPlayback E) : Prop where
  rdpsnd : RdpsndServer.Sent s.rdpsnd s'.rdpsnd
  options : s'.options = s.options
  formatNo : s'.formatNo = s.formatNo
  capture : s'.capture = s.capture
  useOpus : s'.useOpus = s.useOpus
  opus : s.opus.isSome = true → s'.opus.isSome = true
  packets : s'.packets = s.packets
  pending : s'.pending = s.pending

theorem Kept.refl (s : AudioPlayback E) : Kept s s := ⟨sent_refl _, rfl, rfl, rfl, rfl, id, rfl, rfl⟩

theorem Kept.trans {s₁ s₂ s₃ : AudioPlayback E} (h₁ : Kept s₁ s₂) (h₂ : Kept s₂ s₃) : Kept s₁ s₃ where
  rdpsnd := ⟨h₂.rdpsnd.config.trans h₁.rdpsnd.config, h₂.rdpsnd.client.trans h₁.rdpsnd.client,
    h₂.rdpsnd.state.trans h₁.rdpsnd.state, h₂.rdpsnd.events.trans h₁.rdpsnd.events⟩
  options := h₂.options.trans h₁.options
  formatNo := h₂.formatNo.trans h₁.formatNo
  capture := h₂.capture.trans h₁.capture
  useOpus := h₂.useOpus.trans h₁.useOpus
  opus := fun h => h₂.opus (h₁.opus h)
  packets := h₂.packets.trans h₁.packets
  pending := h₂.pending.trans h₁.pending

theorem Good.keep (h : Good s) (hkept : Kept s s') : Good s' :=
  h.same hkept.rdpsnd hkept.options hkept.formatNo hkept.capture hkept.useOpus hkept.opus hkept.packets

theorem listen_kept (s : AudioPlayback E) (packet : List ℤ) : Kept s (s.listen packet) := by
  unfold listen
  split_ifs <;> exact ⟨sent_refl _, rfl, rfl, rfl, rfl, id, rfl, rfl⟩

theorem shouldDrop_kept (s : AudioPlayback E) (now : ℤ) : Kept s (s.shouldDrop now).1 :=
  ⟨sent_refl _, rfl, rfl, rfl, rfl, id, rfl, rfl⟩

theorem hush_returns (s : AudioPlayback E) : Returns s.hush fun s' => Kept s s' := by
  unfold hush
  refine Returns.ite (fun _ => Returns.some (Kept.refl s)) fun _ => ?_
  refine Returns.bind sendClose_returns fun rdpsnd hrdpsnd => ?_
  exact Returns.pure ⟨hrdpsnd, rfl, rfl, rfl, rfl, id, rfl, rfl⟩

/-- The data of a packet: PCM of its length, or what the encoder returns. -/
def DataOf (s : AudioPlayback E) (packet : List ℤ) (data : List UInt8) : Prop :=
  if s.useOpus then data.length ≤ 4000 else data.length = 2 * packet.length

theorem pcm_length (packet : List ℤ) :
    (packet.flatMap fun sample => Writer.u16le (toUnsigned 16 sample)).length = 2 * packet.length := by
  induction packet with
  | nil => rfl
  | cons sample packet ih =>
    rw [flatMap_cons, length_append, Writer.u16le_length, length_cons]
    omega

theorem encode_returns (h : s.useOpus = true → s.opus.isSome = true) (packet : List ℤ) :
    Returns (s.encode codec packet) fun done => Kept s done.2 ∧ DataOf s packet done.1 := by
  unfold AudioPlayback.encode
  refine Returns.ite (fun huse => ?_) fun huse => ?_
  · obtain ⟨e, he⟩ := isSome_iff_exists.mp (h huse)
    rw [he]
    refine Returns.some ⟨⟨sent_refl _, rfl, rfl, rfl, rfl, fun _ => rfl, rfl, rfl⟩, ?_⟩
    unfold DataOf
    rw [if_pos huse]
    exact codec.encode_le e packet
  · refine Returns.some ⟨Kept.refl s, ?_⟩
    unfold DataOf
    rw [if_neg huse]
    exact pcm_length packet

theorem preparePacket_returns (codec : OpusEncoder E) (h : s.useOpus = true → s.opus.isSome = true) (packet : List ℤ)
    (now : ℤ) :
    Returns (s.preparePacket codec packet now) fun done =>
      Kept s done.2 ∧ ∀ data, done.1 = some data → DataOf s packet data := by
  have hnone : ∀ {s' : AudioPlayback E}, Kept s s' →
      Kept s s' ∧ ∀ data, (none : Option (List UInt8)) = some data → DataOf s packet data :=
    fun hkept => ⟨hkept, fun data hdata => by cases hdata⟩
  have hheard := listen_kept s packet
  unfold AudioPlayback.preparePacket
  refine Returns.ite (fun _ => ?_) fun _ => ?_
  · refine Returns.bind (hush_returns _) fun s' hs' => ?_
    exact Returns.pure (hnone (hheard.trans hs'))
  · have hdrop := hheard.trans (shouldDrop_kept (s.listen packet) now)
    refine Returns.ite (fun _ => Returns.pure (hnone hdrop)) fun _ => ?_
    refine Returns.bind (encode_returns (fun hu => hdrop.opus (h (hdrop.useOpus ▸ hu))) packet) fun done hdone => ?_
    have hkept := hdrop.trans hdone.1
    refine Returns.ite (fun _ => Returns.pure (hnone hkept)) fun _ => Returns.pure ⟨hkept, ?_⟩
    intro data' hdata
    obtain rfl := Option.some.inj hdata
    have hlength := hdone.2
    unfold DataOf at hlength ⊢
    rwa [hdrop.useOpus] at hlength

/-- What a packet leaves as it was. -/
structure After (s s' : AudioPlayback E) : Prop where
  good : Good s'
  formatNo : s'.formatNo = s.formatNo
  capture : s'.capture = s.capture
  pending : s'.pending = s.pending

/-- An Opus packet that its encoding cannot carry. -/
def short (s : AudioPlayback E) (data : List UInt8) : Bool :=
  s.useOpus && !s.rdpsnd.usesWave2 && data.length ≤ 4

variable {packet : List ℤ} {data : List UInt8}

/-- All other packets are carried by their encoding. -/
theorem carries_of_not_short (hcapture : Offered s.capture) (hpacket : packet.length = s.capture.samples 20)
    (hdata : DataOf s packet data) (hshort : s.short data = false) : s.rdpsnd.Carries data := by
  obtain ⟨hlow, hhigh⟩ := offered_samples hcapture
  unfold DataOf at hdata
  unfold RdpsndServer.Carries
  by_cases huse : s.useOpus = true
  · rw [if_pos huse] at hdata
    by_cases h2 : s.rdpsnd.usesWave2 = true
    · rw [if_pos h2]
      omega
    · rw [if_neg h2]
      simp [short, huse, h2] at hshort
      omega
  · rw [if_neg huse] at hdata
    split_ifs <;> omega

theorem sendData_returns (h : Good s) {n : ℕ} (hn : s.formatNo = some n) (hdata : s.rdpsnd.Carries data) (now : ℤ) :
    Returns (s.sendData n data now) fun s' => After s s' := by
  obtain ⟨hstate, hformat, hcapture⟩ := h.chosen n hn
  obtain ⟨hlt, -⟩ := List.getElem?_eq_some_iff.mp hformat
  unfold sendData
  refine Returns.bind (sendWave_returns _ _ hstate hlt hdata) fun done hdone => ?_
  obtain ⟨block, rdpsnd⟩ := done
  have hkept : Good { s with rdpsnd := rdpsnd, inFlight := s.inFlight ++ [⟨block, now⟩] } :=
    h.same hdone rfl rfl rfl rfl id rfl
  refine Returns.pure ⟨⟨hkept.options, hkept.training, hkept.told, hkept.limited, hkept.encoder, hkept.chosen,
    fun _ => hdone.state.trans hstate, ?_⟩, rfl, rfl, rfl⟩
  intro p hp
  rcases mem_append.mp hp with hp | hp
  · exact hkept.numbers p hp
  · obtain rfl : p = (n, s.format) := mem_singleton.mp hp
    exact (hkept.chosen n hn).2.1

/-- The encoding of a short packet aborts. -/
theorem sendData_aborts (hshort : s.short data = true) (n : ℕ) (now : ℤ) : s.sendData n data now = none := by
  unfold short at hshort
  rw [and_eq_true, and_eq_true, not_eq_true', decide_eq_true_eq] at hshort
  have hwave : encodeWave (s.rdpsnd.wave n data (s.millis now)) = none := by
    rw [← not_isSome_iff_eq_none, encodeWave_isSome_iff]
    show ¬ (4 < data.length ∧ data.length ≤ 65527)
    omega
  have hsend : ∀ audio, s.rdpsnd.sendWave n data (s.millis now) audio = none := by
    intro audio
    have hwave2 : (s.rdpsnd.stamp (s.rdpsnd.wave n data (s.millis now))).usesWave2 = false := hshort.1.2
    unfold sendWave asserts
    simp only [hwave2, hwave, false_eq_true, if_false]
    split_ifs <;> rfl
  unfold sendData
  rw [hsend]
  rfl

theorem shortPacket_eq {n : ℕ} (hn : s.formatNo = some n) {now : ℤ}
    (hprepare : s.preparePacket codec packet now = some (some data, s')) :
    s.shortPacket codec packet now = s'.short data := by
  unfold shortPacket
  rw [hn, hprepare]
  rfl

/-- **A packet that fits is sent or dropped.** -/
theorem sendPacket_returns (h : Good s) {n : ℕ} (hn : s.formatNo = some n)
    (hpacket : packet.length = s.capture.samples 20) {now : ℤ} (hshort : s.shortPacket codec packet now = false) :
    Returns (s.sendPacket codec packet now) fun s' => After s s' := by
  obtain ⟨-, -, hcapture⟩ := h.chosen n hn
  obtain ⟨⟨data, s'⟩, hprepare, hkept, hdata⟩ := preparePacket_returns codec h.encoder packet now
  have hgood := h.keep hkept
  unfold sendPacket
  rw [hn]
  simp only [hprepare]
  cases data with
  | none => exact Returns.some ⟨hgood, hkept.formatNo, hkept.capture, hkept.pending⟩
  | some data =>
    have hof : DataOf s' packet data := by
      have hbefore := hdata data rfl
      unfold DataOf at hbefore ⊢
      rwa [hkept.useOpus]
    rw [shortPacket_eq hn hprepare] at hshort
    have hcarries := carries_of_not_short (hkept.capture ▸ hcapture) (hkept.capture ▸ hpacket) hof hshort
    refine (sendData_returns hgood (hkept.formatNo.trans hn) hcarries now).mono fun s'' hs'' => ?_
    exact ⟨hs''.good, hs''.formatNo.trans hkept.formatNo, hs''.capture.trans hkept.capture,
      hs''.pending.trans hkept.pending⟩

theorem sendPacket_aborts {now : ℤ} (hshort : s.shortPacket codec packet now = true) :
    s.sendPacket codec packet now = none := by
  unfold shortPacket at hshort
  split at hshort
  · next n data s' hn hprepare =>
    unfold sendPacket
    rw [hn]
    simp only [hprepare]
    exact sendData_aborts hshort n now
  · exact absurd hshort (by simp)

/-- **The packets of a push.** The induction is on the fuel; the packets before one leave the format in use as it was. -/
theorem sendPackets_spec {packet : ℕ} (now : ℤ) : ∀ {fuel : ℕ} {s : AudioPlayback E}, Good s →
    ∀ {n : ℕ}, s.formatNo = some n → packet = s.capture.samples 20 →
    (fitsPackets codec packet now fuel s = true → Returns (sendPackets codec packet now fuel s) Good) ∧
    (fitsPackets codec packet now fuel s = false → sendPackets codec packet now fuel s = none)
  | 0, s, h, n, hn, hpacket => ⟨fun _ => Returns.some h, fun hfalse => by cases hfalse⟩
  | fuel + 1, s, h, n, hn, hpacket => by
    unfold sendPackets fitsPackets
    by_cases hlast : s.pending.length < packet
    · simp only [if_pos hlast]
      exact ⟨fun _ => Returns.some h, fun hfalse => absurd hfalse (by simp)⟩
    · simp only [if_neg hlast]
      have hlength : (s.pending.take packet).length = s.capture.samples 20 := by
        rw [length_take]
        omega
      by_cases hshort : s.shortPacket codec (s.pending.take packet) now = true
      · rw [sendPacket_aborts hshort]
        simp [hshort]
      · rw [not_eq_true] at hshort
        obtain ⟨s', hs', hafter⟩ := sendPacket_returns h hn hlength hshort
        have hrest : Good { s' with pending := s'.pending.drop packet } :=
          hafter.good.same (sent_refl _) rfl rfl rfl rfl id rfl
        have hcapture : packet = s'.capture.samples 20 := by rw [hpacket, hafter.capture]
        have ih := @sendPackets_spec packet now fuel _ hrest n (hafter.formatNo.trans hn) hcapture
        rw [hs', hshort]
        exact ih

theorem gather_good (h : Good s) (samples : List ℤ) : Good (s.gather samples) := by
  unfold gather
  dsimp only
  split_ifs <;> exact h.same (sent_refl _) rfl rfl rfl rfl id rfl

theorem gather_formatNo (s : AudioPlayback E) (samples : List ℤ) : (s.gather samples).formatNo = s.formatNo := by
  unfold gather
  dsimp only
  split_ifs <;> rfl

theorem gather_capture (s : AudioPlayback E) (samples : List ℤ) : (s.gather samples).capture = s.capture := by
  unfold gather
  dsimp only
  split_ifs <;> rfl

theorem push_spec (h : Good s) (samples : List ℤ) (now : ℤ) :
    (s.fits codec (.push samples now) = true → Returns (s.push codec samples now) Good) ∧
    (s.fits codec (.push samples now) = false → s.push codec samples now = none) := by
  unfold push fits
  cases hn : s.formatNo with
  | none => exact ⟨fun _ => Returns.some h, fun hfalse => absurd hfalse (by simp)⟩
  | some n =>
    obtain ⟨-, -, hoffered⟩ := h.chosen n hn
    have hduration : s.options.packetDuration = 20 := by rw [h.options]
    have hpositive : 0 < s.capture.samples 20 := by
      obtain ⟨hlow, -⟩ := offered_samples hoffered
      omega
    have hcapture : s.capture.samples 20 = (s.gather samples).capture.samples 20 := by rw [gather_capture]
    obtain ⟨hreturns, haborts⟩ := @sendPackets_spec E codec (s.capture.samples 20) now
      (s.gather samples).pending.length _ (gather_good h samples) n ((gather_formatNo s samples).trans hn) hcapture
    simp only [hduration, asserts, if_pos hpositive]
    refine ⟨fun hfits => ?_, fun hfits => ?_⟩
    · obtain ⟨s', hs', hgood⟩ := hreturns hfits
      rw [hs']
      exact Returns.some hgood.flush
    · rw [haborts hfits]
      rfl

/-! ### Runs -/

theorem call_spec (h : Good s) (what : Call) :
    (s.fits codec what = true → Returns (s.call codec what) Good) ∧
    (s.fits codec what = false → s.call codec what = none) := by
  match what with
  | .receive message now => exact ⟨fun _ => Returns.map (h.receive message now), fun hfalse => by cases hfalse⟩
  | .push samples now => exact push_spec h samples now
  | .setBandwidth kbps => exact ⟨fun _ => Returns.some (h.setBandwidth kbps), fun hfalse => by cases hfalse⟩

theorem run_spec : ∀ {calls : List Call} {s : AudioPlayback E}, Good s →
    (s.fitsRun codec calls = true → Returns (s.run codec calls) Good) ∧
    (s.fitsRun codec calls = false → s.run codec calls = none)
  | [], s, h => ⟨fun _ => Returns.some h, fun hfalse => by cases hfalse⟩
  | what :: calls, s, h => by
    have hstep : s.run codec (what :: calls) = (s.call codec what).bind (·.run codec calls) := rfl
    rw [hstep]
    unfold fitsRun
    by_cases hfits : s.fits codec what = true
    · obtain ⟨s', hs', hgood⟩ := (call_spec h what).1 hfits
      rw [hs', hfits]
      exact run_spec hgood
    · rw [not_eq_true] at hfits
      rw [(call_spec h what).2 hfits, hfits]
      exact ⟨fun hfalse => absurd hfalse (by simp), fun _ => rfl⟩

/-- The formats offered can be encoded. -/
theorem started_returns : Returns (started opus now) fun s => Good s := by
  let config : RdpsndServerConfig := { formats := formatsToOffer opus.isSome }
  let rdpsnd : RdpsndServer := { config := config, state := .waitingFormats, lastBlock := 0xFF }
  have hgood : ∀ output : List (List UInt8),
      Good { opus := opus, rdpsnd := rdpsnd, epoch := now, floorWindowStart := now, sent := output } := by
    intro output
    refine ⟨rfl, rfl, fun event hevent => ?_, Nat.zero_le _, fun hu => ?_, fun n hn => ?_, fun hp => absurd rfl hp,
      fun p hp => ?_⟩
    · exact absurd hevent (by simp [rdpsnd])
    · cases hu
    · cases hn
    · exact absurd hp (by simp)
  cases opus with
  | none | some e => exact ⟨_, rfl, hgood _⟩

/-- **Audio output aborts exactly at a short Opus packet.** A session goes on
as long as no Opus packet of one to four bytes is due for a client below
version 8, and every packet sent has the number of the format it is encoded in. -/
theorem play_isSome_iff (codec : OpusEncoder E) (opus : Option E) (now : ℤ) (calls : List Call) :
    ((play codec opus now calls).isSome = true ↔ playFits codec opus now calls = true) ∧
      ∀ s, play codec opus now calls = some s → ∀ p ∈ s.packets, s.rdpsnd.client.formats[p.1]? = some p.2 := by
  obtain ⟨s₀, hs₀, hgood⟩ := started_returns opus now
  obtain ⟨hreturns, haborts⟩ := @run_spec E codec calls s₀ hgood
  have hplay : play codec opus now calls = s₀.run codec calls := by
    unfold play
    rw [hs₀, bind_some]
  have hfitsEq : playFits codec opus now calls = s₀.fitsRun codec calls := by
    unfold playFits
    rw [hs₀, all_some]
  rw [hplay, hfitsEq]
  by_cases hfits : s₀.fitsRun codec calls = true
  · obtain ⟨s', hs', hgood'⟩ := hreturns hfits
    rw [hs', hfits]
    refine ⟨by simp, ?_⟩
    intro s heq
    rw [← Option.some.inj heq]
    exact hgood'.numbers
  · rw [not_eq_true] at hfits
    rw [haborts hfits, hfits]
    exact ⟨by simp, fun s heq => by cases heq⟩

/-! ### A short packet -/

/-- An encoder that returns the same packet whatever it hears. -/
def constant (packet : List UInt8) (h : packet.length ≤ 4000) : OpusEncoder Unit where
  encode _ _ := (packet, ())
  setBitrate e _ := e
  encode_le _ _ := h

/-- A client of version 6 that can play Opus only confirms the training, and a packet of sound follows. -/
def opusCalls : List Call :=
  [.receive ([0x07, 0, 38, 0] ++ [1, 0, 0, 0] ++ [0, 0, 0, 0] ++ [0, 0, 0, 0] ++ [0, 0] ++ [1, 0] ++ [0] ++ [6, 0] ++
    [0] ++ [0x4F, 0x70, 2, 0, 0x80, 0xBB, 0, 0, 0xE0, 0x2E, 0, 0, 4, 0, 16, 0, 0, 0]) 0,
   .receive [0x06, 0, 4, 0, 0, 0, 0, 0] 0,
   .push (List.replicate 1920 1) 0]

/-- **An Opus packet of one byte aborts.** -/
theorem short_packet : play (constant [0xF8] (by decide)) (some ()) 0 opusCalls = none := by
  have hnone : (play (constant [0xF8] (by decide)) (some ()) 0 opusCalls).isSome = false := by decide +kernel
  exact not_isSome_iff_eq_none.mp (by rw [hnone]; decide)

/-- A packet of five bytes goes out under its number. -/
theorem play_isSome_iff_five : ∃ s : AudioPlayback Unit, s.packets = [(0, opusFormat)] ∧
    s.rdpsnd.client.formats[0]? = some opusFormat := by
  have hpackets : (play (constant [0xF8, 0, 0, 0, 0] (by decide)) (some ()) 0 opusCalls).map AudioPlayback.packets =
      some [(0, opusFormat)] := by
    decide +kernel
  obtain ⟨s, hs, heq⟩ := map_eq_some_iff.mp hpackets
  have hnumbers := (play_isSome_iff (constant [0xF8, 0, 0, 0, 0] (by decide)) (some ()) 0 opusCalls).2 s hs
  exact ⟨s, heq, hnumbers (0, opusFormat) (by simp [heq])⟩

end AudioPlayback
end Server
end Farland
