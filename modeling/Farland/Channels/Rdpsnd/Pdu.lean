/-
# Audio output PDUs

The codecs of the audio output channel (`channels/rdpsnd.cpp`): the client's
PDUs and their strict decoder, and the encoder of the server's PDUs that the
server sends. An assertion of an encoder that fails is `none`.

Key theorems: `encodeWave_isSome_iff`, `encodeWave2_isSome_iff`,
`decodeClientPdu_limited`.
-/
import Farland.Base.ReadBack

namespace Farland
namespace Channels
namespace Rdpsnd

open Reader Parse.Gives

/-! ### Constants -/

namespace Msg

def close : ℕ := 0x01
def wave : ℕ := 0x02
def waveConfirm : ℕ := 0x05
def training : ℕ := 0x06
def formats : ℕ := 0x07
def qualityMode : ℕ := 0x0C
def wave2 : ℕ := 0x0D

end Msg

/-- `version::windows_8`: the Wave2 PDU. -/
def windows8 : ℕ := 0x08
/-- `caps::alive`. -/
def alive : ℕ := 0x00000001

namespace Quality

def dynamic : ℕ := 0x0000
def medium : ℕ := 0x0001
def high : ℕ := 0x0002

end Quality

namespace FormatTag

def pcm : ℕ := 0x0001
def opus : ℕ := 0x704F

end FormatTag

/-- SNDPROLOG. -/
def headerSize : ℕ := 4
/-- Formats of one list. -/
def maxFormats : ℕ := 256
/-- Bytes behind a WAVEFORMATEX. -/
def maxFormatExtra : ℕ := 1024

/-- AUDIO_FORMAT. -/
structure AudioFormat where
  tag : ℕ := 0
  channels : ℕ := 0
  samplesPerSec : ℕ := 0
  avgBytesPerSec : ℕ := 0
  blockAlign : ℕ := 0
  bitsPerSample : ℕ := 0
  extra : List UInt8 := []
  deriving DecidableEq

/-- Linear PCM, little-endian, interleaved. -/
def pcmFormat (rate channels : ℕ) (bits : ℕ := 16) : AudioFormat :=
  let blockAlign := channels * ((bits + 7) / 8) % 2 ^ 16
  { tag := FormatTag.pcm, channels := channels, samplesPerSec := rate
    avgBytesPerSec := rate * blockAlign % 2 ^ 32, blockAlign := blockAlign, bitsPerSample := bits }

structure ClientFormats where
  flags : ℕ := 0
  volume : ℕ := 0
  pitch : ℕ := 0
  dgramPort : ℕ := 0
  version : ℕ := 0
  formats : List AudioFormat := []
  deriving DecidableEq

/-- What a client sends. -/
inductive ClientPdu where
  | clientFormats (pdu : ClientFormats)
  | qualityMode (mode : ℕ)
  | trainingConfirm (timestamp packSize : ℕ)
  | waveConfirm (timestamp blockNo : ℕ)
  deriving DecidableEq

/-- A whole sample in one message. -/
structure Wave2 where
  timestamp : ℕ
  formatNo : ℕ
  blockNo : ℕ
  audioTimestamp : ℕ
  data : List UInt8
  deriving DecidableEq

/-- One audio sample as sent over a virtual channel. -/
structure Wave where
  timestamp : ℕ
  formatNo : ℕ
  blockNo : ℕ
  data : List UInt8
  deriving DecidableEq

/-- What the server sends. -/
inductive ServerPdu where
  | serverFormats (version lastBlockConfirmed : ℕ) (formats : List AudioFormat)
  | training (timestamp dataSize : ℕ)
  | wave2 (pdu : Wave2)
  | close
  deriving DecidableEq

/-! ### Encoding -/

/-- `begin_pdu`, the body, `end_pdu`. -/
def encodePdu (type : ℕ) (body : List UInt8) : Option (List UInt8) := do
  asserts (body.length ≤ 0xFFFF)
  pure (Writer.u8 type ++ Writer.u8 0 ++ Writer.u16le body.length ++ body)

/-- With its extra bytes. -/
def encodeFormat (format : AudioFormat) : Option (List UInt8) := do
  asserts (format.extra.length ≤ 0xFFFF)
  pure (Writer.u16le format.tag ++ Writer.u16le format.channels ++ Writer.u32le format.samplesPerSec ++
    Writer.u32le format.avgBytesPerSec ++ Writer.u16le format.blockAlign ++ Writer.u16le format.bitsPerSample ++
    Writer.u16le format.extra.length ++ format.extra)

def encodeServerPdu : ServerPdu → Option (List UInt8)
  | .serverFormats version lastBlockConfirmed formats => do
    asserts (formats.length ≤ maxFormats)
    let encoded ← formats.mapM encodeFormat
    -- dwFlags, dwVolume, dwPitch and wDGramPort are zero
    encodePdu Msg.formats (Writer.zeros 14 ++ Writer.u16le formats.length ++ Writer.u8 lastBlockConfirmed ++
      Writer.u16le version ++ Writer.u8 0 ++ encoded.flatten)
  | .training timestamp dataSize => do
    let packSize := if dataSize = 0 then 0 else headerSize + 4 + dataSize
    asserts (packSize ≤ 0xFFFF)
    encodePdu Msg.training (Writer.u16le timestamp ++ Writer.u16le packSize ++ Writer.zeros dataSize)
  | .wave2 pdu =>
    encodePdu Msg.wave2 (Writer.u16le pdu.timestamp ++ Writer.u16le pdu.formatNo ++ Writer.u8 pdu.blockNo ++
      Writer.zeros 3 ++ Writer.u32le pdu.audioTimestamp ++ pdu.data)
  | .close => encodePdu Msg.close []

/-- A WaveInfo PDU and the Wave PDU that follows it. BodySize is the sample size plus 8. -/
def encodeWave (wave : Wave) : Option (List UInt8 × List UInt8) := do
  asserts (4 < wave.data.length)
  asserts (wave.data.length + 8 ≤ 0xFFFF)
  pure
    (Writer.u8 Msg.wave ++ Writer.u8 0 ++ Writer.u16le (wave.data.length + 8) ++ Writer.u16le wave.timestamp ++
      Writer.u16le wave.formatNo ++ Writer.u8 wave.blockNo ++ Writer.zeros 3 ++ wave.data.take 4,
     Writer.u32le 0 ++ wave.data.drop 4)

/-! ### Decoding -/

/-- No channels or no alignment is refused. -/
def readAudioFormat : Parse AudioFormat := do
  let start ← at_
  let tag ← u16le
  let channels ← u16le
  let samplesPerSec ← u32le
  let avgBytesPerSec ← u32le
  let blockAlign ← u16le
  let bitsPerSample ← u16le
  let extraSize ← u16le
  let offset ← at_
  if maxFormatExtra < extraSize then Parse.fail .limitExceeded "AUDIO_FORMAT cbSize too large" offset
  else do
    let extra ← bytes extraSize
    -- every decoder divides by these
    if channels = 0 ∨ blockAlign = 0 then
      Parse.fail .invalidValue "AUDIO_FORMAT without channels or block alignment" start
    else pure { tag, channels, samplesPerSec, avgBytesPerSec, blockAlign, bitsPerSample, extra }

def readFormats (count : ℕ) : Parse (List AudioFormat) := do
  let offset ← at_
  if maxFormats < count then Parse.fail .limitExceeded "too many audio formats" offset
  else readMany readAudioFormat count

def readClientFormats : Parse ClientPdu := do
  let flags ← u32le
  let volume ← u32le
  let pitch ← u32le
  let dgramPort ← u16be
  let count ← u16le
  skip 1
  let version ← u16le
  skip 1
  let formats ← readFormats count
  expectEnd "Client Audio Formats and Version PDU"
  pure (.clientFormats { flags, volume, pitch, dgramPort, version, formats })

def readQualityMode : Parse ClientPdu := do
  let mode ← u16le
  skip 2
  expectEnd "Quality Mode PDU"
  pure (.qualityMode mode)

def readTrainingConfirm : Parse ClientPdu := do
  let timestamp ← u16le
  let packSize ← u16le
  expectEnd "Training Confirm PDU"
  pure (.trainingConfirm timestamp packSize)

def readWaveConfirm : Parse ClientPdu := do
  let timestamp ← u16le
  let blockNo ← u8
  skip 1
  expectEnd "Wave Confirm PDU"
  pure (.waveConfirm timestamp blockNo)

/-- The body of a PDU, by its message type. -/
def readBody (type : ℕ) : Parse ClientPdu :=
  if type = Msg.formats then readClientFormats
  else if type = Msg.qualityMode then readQualityMode
  else if type = Msg.training then readTrainingConfirm
  else if type = Msg.waveConfirm then readWaveConfirm
  else Parse.fail .unsupported "unknown or unsupported RDPSND client PDU" 0

/-- By the type in the header. -/
def clientPdu : Parse ClientPdu := do
  let type ← u8
  skip 1
  let bodySize ← u16le
  let remaining ← left
  let offset ← at_
  if bodySize ≠ remaining then
    Parse.fail .invalidLength "RDPSND BodySize does not match the message" offset
  else do
    let body ← sub bodySize
    Parse.on body (readBody type)

def decodeClientPdu (message : List UInt8) : Result ClientPdu := (clientPdu ⟨message, 0⟩).map (·.1)

/-! ### What can be encoded -/

theorem encodePdu_isSome_iff {type : ℕ} {body : List UInt8} :
    (encodePdu type body).isSome = true ↔ body.length ≤ 0xFFFF := by
  unfold encodePdu asserts
  by_cases h : body.length ≤ 0xFFFF
  · simp [h]
  · simp [h]

/-- **WaveInfo and Wave carry samples of 5 to 65527 bytes.** -/
theorem encodeWave_isSome_iff {wave : Wave} :
    (encodeWave wave).isSome = true ↔ 4 < wave.data.length ∧ wave.data.length ≤ 65527 := by
  unfold encodeWave asserts
  by_cases h4 : 4 < wave.data.length
  · by_cases h8 : wave.data.length + 8 ≤ 0xFFFF
    · have hle : wave.data.length ≤ 65527 := by omega
      simp [h4, hle]
    · have hgt : ¬ wave.data.length ≤ 65527 := by omega
      simp [hgt]
  · simp [h4]

/-- **Wave2 carries samples of up to 65523 bytes.** -/
theorem encodeWave2_isSome_iff {pdu : Wave2} :
    (encodeServerPdu (.wave2 pdu)).isSome = true ↔ pdu.data.length ≤ 65523 := by
  show (encodePdu _ _).isSome = true ↔ _
  rw [encodePdu_isSome_iff]
  simp only [List.length_append, Writer.u16le_length, Writer.u8_length, Writer.zeros_length, Writer.u32le_length]
  omega

theorem readFormats_gives (count : ℕ) : (readFormats count).Gives (·.length ≤ maxFormats) := by
  refine next fun offset => Parse.Gives.ite (fun _ => Parse.Gives.fail _ _ _) fun hcount => ?_
  refine (Parse.readMany_gives readAudioFormat count).imp fun formats hlength => ?_
  omega

/-- A client's list of formats is within the limit. -/
def Limited : ClientPdu → Prop
  | .clientFormats pdu => pdu.formats.length ≤ maxFormats
  | _ => True

theorem readClientFormats_gives : readClientFormats.Gives Limited := by
  refine next fun _ => next fun _ => next fun _ => next fun _ => ?_
  refine next fun count => next fun _ => next fun _ => next fun _ => ?_
  refine (readFormats_gives count).bind fun formats hformats => next fun _ => ?_
  exact Parse.Gives.pure hformats

theorem readBody_gives (type : ℕ) : (readBody type).Gives Limited := by
  unfold readBody
  refine Parse.Gives.ite (fun _ => readClientFormats_gives) fun _ => ?_
  refine Parse.Gives.ite (fun _ => ?_) fun _ => Parse.Gives.ite (fun _ => ?_) fun _ => Parse.Gives.ite (fun _ => ?_)
    fun _ => Parse.Gives.fail _ _ _
  · exact next fun _ => next fun _ => next fun _ => Parse.Gives.pure trivial
  · exact next fun _ => next fun _ => next fun _ => Parse.Gives.pure trivial
  · exact next fun _ => next fun _ => next fun _ => next fun _ =>
      Parse.Gives.pure trivial

theorem decodeClientPdu_limited {message : List UInt8} {pdu : ClientPdu} (h : decodeClientPdu message = .ok pdu) :
    Limited pdu := by
  unfold decodeClientPdu at h
  match hpdu : clientPdu ⟨message, 0⟩ with
  | .error e =>
    rw [hpdu] at h
    cases h
  | .ok (decoded, r') =>
    rw [hpdu] at h
    cases h
    have hgives : clientPdu.Gives Limited := by
      refine next fun type => next fun _ => next fun bodySize => ?_
      refine next fun remaining => next fun offset => ?_
      refine Parse.Gives.ite (fun _ => Parse.Gives.fail _ _ _) fun _ => next fun body => ?_
      exact (readBody_gives type).on body
    exact hgives _ _ _ hpdu

end Rdpsnd
end Channels
end Farland
