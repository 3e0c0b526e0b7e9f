/-
# Input channel PDUs

Multitouch and pen frames (`channels/rdpei.cpp`): the variable-length
integers, the client's PDUs and the framing of several of them in one
message. Decoding is strict: lengths, counts and field presence flags must add
up to exactly the PDU. Values are passed on as sent. The encoder for the
server's PDUs is here, the client's encoder is not.

Key theorems: `framePdu_bounds`, `decodeMessage_ok`.
-/
import Farland.Base.Reader

namespace Farland
namespace Channels
namespace Rdpei

open Reader

def headerSize : ℕ := 6
def maxFrames : ℕ := 128
def maxTouchContactsPerFrame : ℕ := 256
def maxPenContactsPerFrame : ℕ := 4
def maxPduSize : ℕ := 64 * 1024

def v200 : ℕ := 0x00020000
def v300 : ℕ := 0x00030000
def multipenInjectionSupported : ℕ := 0x00000001
def enableMultipenInjection : ℕ := 0x00000004

/-! ### Variable-length integers -/

/-- `count` more bytes, most significant first. -/
def readTail (value : ℕ) : ℕ → Parse ℕ
  | 0 => pure value
  | count + 1 => do
    let byte ← u8
    readTail (value <<< 8 ||| byte) count

def readTwoByteUnsigned : Parse ℕ := do
  let first ← u8
  readTail (first &&& 0x7F) (if first &&& 0x80 ≠ 0 then 1 else 0)

def readTwoByteSigned : Parse ℤ := do
  let first ← u8
  let magnitude ← readTail (first &&& 0x3F) (if first &&& 0x80 ≠ 0 then 1 else 0)
  pure (if first &&& 0x40 ≠ 0 then -(magnitude : ℤ) else magnitude)

def readFourByteUnsigned : Parse ℕ := do
  let first ← u8
  readTail (first &&& 0x3F) (first >>> 6)

def readFourByteSigned : Parse ℤ := do
  let first ← u8
  let magnitude ← readTail (first &&& 0x1F) (first >>> 6)
  pure (if first &&& 0x20 ≠ 0 then -(magnitude : ℤ) else magnitude)

def readEightByteUnsigned : Parse ℕ := do
  let first ← u8
  readTail (first &&& 0x1F) (first >>> 5)

/-! ### Client PDUs -/

structure CsReady where
  flags : ℕ
  protocolVersion : ℕ
  maxTouchContacts : ℕ
  deriving DecidableEq

/-- Relative to the contact point. -/
structure ContactRect where
  left : ℤ
  top : ℤ
  right : ℤ
  bottom : ℤ
  deriving DecidableEq

structure TouchContact where
  contactId : ℕ
  x : ℤ
  y : ℤ
  contactFlags : ℕ
  contactRect : Option ContactRect
  orientation : Option ℕ
  pressure : Option ℕ
  deriving DecidableEq

structure PenContact where
  deviceId : ℕ
  x : ℤ
  y : ℤ
  contactFlags : ℕ
  penFlags : Option ℕ
  pressure : Option ℕ
  rotation : Option ℕ
  tiltX : Option ℤ
  tiltY : Option ℤ
  deriving DecidableEq

/-- A touch or a pen frame. -/
structure Frame (Contact : Type) where
  frameOffset : ℕ
  contacts : List Contact
  deriving DecidableEq

/-- A touch or a pen event; the oldest frame comes first. -/
structure InputEvent (Contact : Type) where
  encodeTime : ℕ
  frames : List (Frame Contact)
  deriving DecidableEq

inductive ClientPdu where
  | csReady (pdu : CsReady)
  | touch (event : InputEvent TouchContact)
  | dismissHoveringContact (contactId : ℕ)
  | pen (event : InputEvent PenContact)
  deriving DecidableEq

/-- A counted array, checked against `limit` and against what is left. -/
def readArray {α : Type} (readOne : Parse α) (count limit minSize : ℕ) (tooMany : String) : Parse (List α) := do
  let offset ← at_
  let remaining ← left
  if limit < count then Parse.fail .limitExceeded tooMany offset
  else if remaining / minSize < count then Parse.fail .truncated "array extends past the PDU" offset
  else readMany readOne count

/-- A field that is there when its flag is set. -/
def readField {α : Type} (fields flag : ℕ) (readOne : Parse α) : Parse (Option α) :=
  if fields &&& flag ≠ 0 then some <$> readOne else pure none

def readContactRect : Parse ContactRect := do
  let left ← readTwoByteSigned
  let top ← readTwoByteSigned
  let right ← readTwoByteSigned
  let bottom ← readTwoByteSigned
  pure ⟨left, top, right, bottom⟩

/-- The field presence flags. `known` is all ones; a flag beyond it stands for a
field of unknown size. -/
def readFields (known : ℕ) (what : String) : Parse ℕ := do
  let fields ← readTwoByteUnsigned
  let offset ← at_
  if known < fields then Parse.fail .unsupported what offset else pure fields

def readTouchContact : Parse TouchContact := do
  let contactId ← u8
  let fields ← readFields 0x0007 "unknown RDPINPUT_TOUCH_CONTACT fields"
  let x ← readFourByteSigned
  let y ← readFourByteSigned
  let contactFlags ← readFourByteUnsigned
  let contactRect ← readField fields 0x0001 readContactRect
  let orientation ← readField fields 0x0002 readFourByteUnsigned
  let pressure ← readField fields 0x0004 readFourByteUnsigned
  pure { contactId, x, y, contactFlags, contactRect, orientation, pressure }

def readPenContact : Parse PenContact := do
  let deviceId ← u8
  let fields ← readFields 0x001F "unknown RDPINPUT_PEN_CONTACT fields"
  let x ← readFourByteSigned
  let y ← readFourByteSigned
  let contactFlags ← readFourByteUnsigned
  let penFlags ← readField fields 0x0001 readFourByteUnsigned
  let pressure ← readField fields 0x0002 readFourByteUnsigned
  let rotation ← readField fields 0x0004 readTwoByteUnsigned
  let tiltX ← readField fields 0x0008 readTwoByteSigned
  let tiltY ← readField fields 0x0010 readTwoByteSigned
  pure { deviceId, x, y, contactFlags, penFlags, pressure, rotation, tiltX, tiltY }

/-- A touch or pen frame: contactCount, frameOffset, contacts. -/
def readFrame {Contact : Type} (readContact : Parse Contact) (limit : ℕ) (tooMany : String) :
    Parse (Frame Contact) := do
  let count ← readTwoByteUnsigned
  let frameOffset ← readEightByteUnsigned
  let contacts ← readArray readContact count limit 5 tooMany
  pure ⟨frameOffset, contacts⟩

/-- A touch or pen event after the header. -/
def readEvent {Contact : Type} (readOneFrame : Parse (Frame Contact)) : Parse (InputEvent Contact) := do
  let encodeTime ← readFourByteUnsigned
  let count ← readTwoByteUnsigned
  let frames ← readArray readOneFrame count maxFrames 2 "too many input frames"
  pure ⟨encodeTime, frames⟩

def readTouchEvent : Parse (InputEvent TouchContact) :=
  readEvent (readFrame readTouchContact maxTouchContactsPerFrame "too many touch contacts in a frame")

def readPenEvent : Parse (InputEvent PenContact) :=
  readEvent (readFrame readPenContact maxPenContactsPerFrame "too many pen contacts in a frame")

/-- The event id of a PDU of `size` bytes. -/
def readHeader (size : ℕ) : Parse ℕ := do
  let eventId ← u16le
  let length ← u32le
  let offset ← at_
  if length ≠ size then
    Parse.fail .invalidLength "RDPINPUT_HEADER pduLength does not match the PDU" (offset - 4)
  else pure eventId

def readCsReady : Parse CsReady := do
  let flags ← u32le
  let protocolVersion ← u32le
  let maxTouchContacts ← u16le
  pure ⟨flags, protocolVersion, maxTouchContacts⟩

/-- A body that fills the rest of the PDU. -/
def finish {α : Type} (make : α → ClientPdu) (body : Parse α) (what : String) : Parse ClientPdu := do
  let value ← body
  expectEnd what
  pure (make value)

def readClientPdu (size : ℕ) : Parse ClientPdu := do
  let eventId ← readHeader size
  match eventId with
  | 0x0002 => finish .csReady readCsReady "RDPINPUT_CS_READY_PDU"
  | 0x0003 => finish .touch readTouchEvent "RDPINPUT_TOUCH_EVENT_PDU"
  | 0x0006 => finish .dismissHoveringContact u8 "RDPINPUT_DISMISS_HOVERING_TOUCH_CONTACT_PDU"
  | 0x0008 => finish .pen readPenEvent "RDPINPUT_PEN_EVENT_PDU"
  | _ => Parse.fail .unsupported "RDPINPUT eventId not sent by clients" 0

/-- One client PDU that fills `bytes` exactly. -/
def decodeClientPdu (bytes : List UInt8) : Result ClientPdu :=
  match readClientPdu bytes.length ⟨bytes, 0⟩ with
  | .ok (pdu, _) => .ok pdu
  | .error e => .error e

/-- The size of the first PDU. -/
def framePdu (stream : List UInt8) (maxSize : ℕ := maxPduSize) : Result ℕ :=
  match (do skip 2; u32le : Parse ℕ) ⟨stream, 0⟩ with
  | .error e => .error e
  | .ok (length, _) =>
    if length < headerSize then fail .invalidLength "RDPINPUT_HEADER pduLength below the header size" 2
    else if maxSize < length then fail .limitExceeded "RDPINPUT PDU too large" 2
    else if stream.length < length then fail .truncated "RDPINPUT PDU extends past the message" 2
    else .ok length

/-- The PDUs of a message, with fuel for one a byte. -/
def decodePdus : ℕ → List UInt8 → Result (List ClientPdu)
  | 0, _ => .ok []
  | _ + 1, [] => .ok []
  | fuel + 1, byte :: rest => do
    let size ← framePdu (byte :: rest)
    let pdu ← decodeClientPdu ((byte :: rest).take size)
    let pdus ← decodePdus fuel ((byte :: rest).drop size)
    .ok (pdu :: pdus)

/-- All PDUs of a message are decoded before any is applied. -/
def decodeMessage (message : List UInt8) : Result (List ClientPdu) := decodePdus message.length message

/-! ### Server PDUs -/

structure ScReady where
  protocolVersion : ℕ
  supportedFeatures : Option ℕ
  deriving DecidableEq

inductive ServerPdu where
  | scReady (pdu : ScReady)
  | suspendInput
  | resumeInput
  deriving DecidableEq

open Writer

def writePdu (eventId : ℕ) (body : List UInt8) : List UInt8 :=
  u16le eventId ++ u32le (headerSize + body.length) ++ body

def encodeServerPdu : ServerPdu → List UInt8
  | .scReady pdu => writePdu 0x0001 (u32le pdu.protocolVersion ++ pdu.supportedFeatures.elim [] u32le)
  | .suspendInput => writePdu 0x0004 []
  | .resumeInput => writePdu 0x0005 []

/-! ### Messages -/

/-- A message whose PDUs all frame and decode. -/
inductive WellFormed : List UInt8 → List ClientPdu → Prop
  | nil : WellFormed [] []
  | cons {message : List UInt8} {size : ℕ} {pdu : ClientPdu} {pdus : List ClientPdu}
      (hframe : framePdu message = .ok size) (hpdu : decodeClientPdu (message.take size) = .ok pdu)
      (hrest : WellFormed (message.drop size) pdus) : WellFormed message (pdu :: pdus)

theorem framePdu_bounds {message : List UInt8} {size : ℕ} (h : framePdu message = .ok size) :
    headerSize ≤ size ∧ size ≤ maxPduSize ∧ size ≤ message.length := by
  unfold framePdu at h
  split at h
  · cases h
  · split_ifs at h with hsmall hlarge hpast
    · cases h
    · cases h
    · cases h
    · obtain rfl := Except.ok.inj h
      omega

theorem bind_eq_ok {α β : Type} {x : Result α} {f : α → Result β} {b : β} :
    (x >>= f) = .ok b ↔ ∃ a, x = .ok a ∧ f a = .ok b := by
  cases x with
  | error e => exact ⟨fun h => (by cases h), fun ⟨_, h, _⟩ => (by cases h)⟩
  | ok a => exact ⟨fun h => ⟨a, rfl, h⟩, fun ⟨_, h, hb⟩ => (by cases h; exact hb)⟩

theorem decodePdus_nil (fuel : ℕ) : decodePdus fuel [] = .ok [] := by
  cases fuel <;> rfl

theorem wellFormed_nil {pdus : List ClientPdu} (h : WellFormed [] pdus) : pdus = [] := by
  cases h with
  | nil => rfl
  | cons hframe _ _ =>
    have hbounds := framePdu_bounds hframe
    rw [headerSize, List.length_nil] at hbounds
    omega

theorem decodePdus_ok : ∀ (fuel : ℕ) (message : List UInt8) (pdus : List ClientPdu), message.length ≤ fuel →
    (decodePdus fuel message = .ok pdus ↔ WellFormed message pdus)
  | fuel, [], pdus, _ => by
    rw [decodePdus_nil]
    constructor
    · intro h
      cases h
      exact .nil
    · intro h
      rw [wellFormed_nil h]
  | 0, _ :: _, _, hfuel => absurd hfuel (by simp)
  | fuel + 1, byte :: rest, pdus, hfuel => by
    have hrest : ∀ size, framePdu (byte :: rest) = .ok size → ((byte :: rest).drop size).length ≤ fuel := by
      intro size hframe
      have hbounds := (framePdu_bounds hframe).1
      unfold headerSize at hbounds
      rw [List.length_drop]
      omega
    constructor
    · intro h
      obtain ⟨size, hframe, h⟩ := bind_eq_ok.mp h
      obtain ⟨pdu, hpdu, h⟩ := bind_eq_ok.mp h
      obtain ⟨tail, htail, h⟩ := bind_eq_ok.mp h
      cases h
      exact .cons hframe hpdu ((decodePdus_ok fuel _ _ (hrest size hframe)).mp htail)
    · intro h
      cases h with
      | @cons _ size pdu tail hframe hpdu htail =>
        have hdecoded := (decodePdus_ok fuel _ _ (hrest size hframe)).mpr htail
        exact bind_eq_ok.mpr ⟨size, hframe, bind_eq_ok.mpr ⟨pdu, hpdu, bind_eq_ok.mpr ⟨tail, hdecoded, rfl⟩⟩⟩

/-- **A message is decoded exactly when it is PDUs, back to back.** -/
theorem decodeMessage_ok {message : List UInt8} {pdus : List ClientPdu} :
    decodeMessage message = .ok pdus ↔ WellFormed message pdus :=
  decodePdus_ok message.length message pdus le_rfl

end Rdpei
end Channels
end Farland
