/-
# Input events

The client's input in its two forms (`proto/input.cpp`): the slow-path Input
PDU's payload and the fast-path PDU. Both decode to the same events. The fast
path folds a small count into its header and the flags of an event into five
bits of the event's, which have their own meaning; the slow path has no form
for a QoE timestamp.

Key theorems: `decodeSlowPathInput_readsBack`, `decodeFastpathInput_reads`,
**`input_roundTrip`**.
-/
import Farland.Proto.Fastpath
import Mathlib.Data.Nat.Bitwise

namespace Farland
namespace Proto
namespace Input

open Reader Parse List

/-! ### Events -/

inductive InputEvent where
  | keyboard (flags code : ℕ)
  | unicodeKeyboard (flags code : ℕ)
  | mouse (flags x y : ℕ)
  | extendedMouse (flags x y : ℕ)
  | relativeMouse (flags : ℕ) (dx dy : ℤ)
  | sync (toggleFlags : ℕ)
  | qoeTimestamp (timestamp : ℕ)
  deriving DecidableEq

/-- `kbd_flags`. -/
def extended : ℕ := 0x0100
def extended1 : ℕ := 0x0200
def release : ℕ := 0x8000

/-- Upper bound on slow-path events per PDU. -/
def maxSlowPathInputEvents : ℕ := 512

def fpKbdRelease : ℕ := 0x01
def fpKbdExtended : ℕ := 0x02
def fpKbdExtended1 : ℕ := 0x04
def fpFlagSecureChecksum : ℕ := 0x1
def fpFlagEncrypted : ℕ := 0x2

def keyboardFlagsFromFastpath (flags : ℕ) : ℕ :=
  (if flags &&& fpKbdRelease ≠ 0 then release else 0) ||| (if flags &&& fpKbdExtended ≠ 0 then extended else 0) |||
    (if flags &&& fpKbdExtended1 ≠ 0 then extended1 else 0)

def keyboardFlagsToFastpath (flags : ℕ) : ℕ :=
  (if flags &&& release ≠ 0 then fpKbdRelease else 0) ||| (if flags &&& extended ≠ 0 then fpKbdExtended else 0) |||
    (if flags &&& extended1 ≠ 0 then fpKbdExtended1 else 0)

def readPointerEvent (event : ℕ → ℕ → ℕ → InputEvent) : Parse InputEvent := do
  let flags ← u16le
  let x ← u16le
  let y ← u16le
  pure (event flags x y)

def readRelativeEvent : Parse InputEvent := do
  let flags ← u16le
  let dx ← u16le
  let dy ← u16le
  pure (.relativeMouse flags (toSigned 16 dx) (toSigned 16 dy))

/-- Three 16-bit fields. -/
def writeFields (a b c : ℕ) : List UInt8 := Writer.u16le a ++ (Writer.u16le b ++ Writer.u16le c)

def writeRelativeEvent (flags : ℕ) (dx dy : ℤ) : List UInt8 := writeFields flags (toUnsigned 16 dx) (toUnsigned 16 dy)

/-! ### The slow path -/

def readCodeEvent (event : ℕ → ℕ → InputEvent) : Parse InputEvent := do
  let flags ← u16le
  let code ← u16le
  skip 2
  pure (event flags code)

/-- What stands behind the type. -/
def slowPathEvent (typeOffset : ℕ) : ℕ → Parse InputEvent
  | 0x0000 => do
    skip 2
    let toggles ← u32le
    pure (.sync toggles)
  | 0x0004 => readCodeEvent .keyboard
  | 0x0005 => readCodeEvent .unicodeKeyboard
  | 0x8001 => readPointerEvent .mouse
  | 0x8002 => readPointerEvent .extendedMouse
  | 0x8004 => readRelativeEvent
  | _ => Parse.fail .unsupported "unknown slow-path input event" typeOffset

def decodeSlowPathEvent : Parse InputEvent := do
  skip 4
  let typeOffset ← at_
  let type ← u16le
  slowPathEvent typeOffset type

def decodeSlowPathInput : Parse (List InputEvent) := do
  let start ← at_
  let count ← u16le
  if count > maxSlowPathInputEvents then Parse.fail .limitExceeded "too many slow-path input events" start
  else do
    skip 2
    readMany decodeSlowPathEvent count

def encodeSlowPathEvent : InputEvent → List UInt8
  | .sync toggleFlags => Writer.u32le 0 ++ (Writer.u16le 0x0000 ++ (Writer.u16le 0 ++ Writer.u32le toggleFlags))
  | .keyboard flags code => Writer.u32le 0 ++ (Writer.u16le 0x0004 ++ writeFields flags code 0)
  | .unicodeKeyboard flags code => Writer.u32le 0 ++ (Writer.u16le 0x0005 ++ writeFields flags code 0)
  | .mouse flags x y => Writer.u32le 0 ++ (Writer.u16le 0x8001 ++ writeFields flags x y)
  | .extendedMouse flags x y => Writer.u32le 0 ++ (Writer.u16le 0x8002 ++ writeFields flags x y)
  | .relativeMouse flags dx dy => Writer.u32le 0 ++ (Writer.u16le 0x8004 ++ writeRelativeEvent flags dx dy)
  | .qoeTimestamp _ => []

def isQoeTimestamp : InputEvent → Bool
  | .qoeTimestamp _ => true
  | _ => false

/-- QoE timestamps have no slow-path form and are skipped. -/
def encodeSlowPathInput (events : List InputEvent) : List UInt8 :=
  let sent := events.filter fun e => !isQoeTimestamp e
  Writer.u16le sent.length ++ (Writer.u16le 0 ++ sent.flatMap encodeSlowPathEvent)

/-! ### The fast path -/

/-- What stands behind the event's header. -/
def fastpathEvent (eventOffset eventFlags : ℕ) : ℕ → Parse InputEvent
  | 0 => do
    let key ← u8
    pure (.keyboard (keyboardFlagsFromFastpath eventFlags) key)
  | 1 => readPointerEvent .mouse
  | 2 => readPointerEvent .extendedMouse
  | 3 => pure (.sync eventFlags)
  | 4 => do
    let unit ← u16le
    pure (.unicodeKeyboard (if eventFlags &&& fpKbdRelease ≠ 0 then release else 0) unit)
  | 5 => readRelativeEvent
  | 6 => do
    let timestamp ← u32le
    pure (.qoeTimestamp timestamp)
  | _ => Parse.fail .unsupported "unknown fast-path input event" eventOffset

def decodeFastpathEvent : Parse InputEvent := do
  let eventOffset ← at_
  let eventHeader ← u8
  fastpathEvent eventOffset (eventHeader &&& 0x1F) (eventHeader >>> 5)

/-- The length behind the header, in one octet or two. -/
def readLength : Parse ℕ := do
  let length1 ← u8
  if length1 &&& 0x80 ≠ 0 then do
    let length2 ← u8
    pure ((length1 &&& 0x7F) <<< 8 ||| length2)
  else pure length1

/-- numEvents follows when the header count is zero. -/
def readCount (header : ℕ) : Parse ℕ := if (header >>> 2) &&& 0x0F = 0 then u8 else pure ((header >>> 2) &&& 0x0F)

/-- A complete fast-path input PDU, header included. -/
def decodeFastpathInput : Parse (List InputEvent) := do
  let start ← at_
  let size ← left
  let header ← u8
  if header &&& 0x03 ≠ 0 then Parse.fail .invalidValue "not a fast-path PDU" start
  else if (header >>> 6) &&& (fpFlagEncrypted ||| fpFlagSecureChecksum) ≠ 0 then
    Parse.fail .invalidValue "RDP-encrypted fast-path input under Enhanced RDP Security" start
  else do
    let length ← readLength
    if length ≠ size then Parse.fail .invalidLength "fast-path length does not match the PDU" (start + 1)
    else do
      let count ← readCount header
      let events ← readMany decodeFastpathEvent count
      expectEnd "fast-path input PDU"
      pure events

def eventHeader (code flags : ℕ) : List UInt8 := Writer.u8 (code <<< 5 ||| (flags &&& 0x1F))

def encodeFastpathEvent : InputEvent → Option (List UInt8)
  | .keyboard flags code => do
    asserts (code ≤ 0xFF)
    pure (eventHeader 0 (keyboardFlagsToFastpath flags) ++ Writer.u8 code)
  | .unicodeKeyboard flags code =>
    pure (eventHeader 4 (if flags &&& release ≠ 0 then fpKbdRelease else 0) ++ Writer.u16le code)
  | .mouse flags x y => pure (eventHeader 1 0 ++ writeFields flags x y)
  | .extendedMouse flags x y => pure (eventHeader 2 0 ++ writeFields flags x y)
  | .relativeMouse flags dx dy => pure (eventHeader 5 0 ++ writeRelativeEvent flags dx dy)
  | .sync toggleFlags => pure (eventHeader 3 (toggleFlags % 256))
  | .qoeTimestamp timestamp => pure (eventHeader 6 0 ++ Writer.u32le timestamp)

def encodeFastpathEvents : List InputEvent → Option (List UInt8)
  | [] => pure []
  | event :: events => do
    let bytes ← encodeFastpathEvent event
    let rest ← encodeFastpathEvents events
    pure (bytes ++ rest)

/-- Whether the count stands in the header: a zero there means that it follows. -/
def countInHeader (events : List InputEvent) : Bool := !events.isEmpty && decide (events.length < 16)

/-- `none` is a failed assertion. -/
def encodeFastpathInput (events : List InputEvent) : Option (List UInt8) := do
  asserts (events.length ≤ 0xFF)
  let bytes ← encodeFastpathEvents events
  let count := if countInHeader events then [] else Writer.u8 events.length
  let length := 1 + 2 + (count.length + bytes.length)
  asserts (length ≤ 0x7FFF)
  pure (Writer.u8 (if countInHeader events then events.length <<< 2 else 0) ++ (Writer.u16be (0x8000 ||| length) ++
    (count ++ bytes)))

/-! ### One event -/

/-- The fields have the widths of their types. -/
def InputEvent.Typed : InputEvent → Prop
  | .keyboard flags code | .unicodeKeyboard flags code => flags < 2 ^ 16 ∧ code < 2 ^ 16
  | .mouse flags x y | .extendedMouse flags x y => flags < 2 ^ 16 ∧ x < 2 ^ 16 ∧ y < 2 ^ 16
  | .relativeMouse flags dx dy => flags < 2 ^ 16 ∧ (-2 ^ 15 ≤ dx ∧ dx < 2 ^ 15) ∧ -2 ^ 15 ≤ dy ∧ dy < 2 ^ 15
  | .sync toggleFlags => toggleFlags < 2 ^ 32
  | .qoeTimestamp timestamp => timestamp < 2 ^ 32

/-- What the fast path has bits for. -/
def InputEvent.FitsFastpath : InputEvent → Prop
  | .keyboard flags code => flags &&& (release ||| extended ||| extended1) = flags ∧ code ≤ 0xFF
  | .unicodeKeyboard flags _ => flags &&& release = flags
  | .sync toggleFlags => toggleFlags < 2 ^ 5
  | .mouse _ _ _ | .extendedMouse _ _ _ | .relativeMouse _ _ _ | .qoeTimestamp _ => True

theorem readPointerEvent_readsBack {event : ℕ → ℕ → ℕ → InputEvent} {flags x y : ℕ} (hflags : flags < 2 ^ 16)
    (hx : x < 2 ^ 16) (hy : y < 2 ^ 16) :
    (readPointerEvent event).ReadsBack (writeFields flags x y) (event flags x y) :=
  (u16le_readsBack hflags).bind ((u16le_readsBack hx).bind ((u16le_readsBack hy).map (ReadsBack.pure _)))

theorem readRelativeEvent_readsBack {flags : ℕ} {dx dy : ℤ} (h : (InputEvent.relativeMouse flags dx dy).Typed) :
    readRelativeEvent.ReadsBack (writeRelativeEvent flags dx dy) (.relativeMouse flags dx dy) := by
  obtain ⟨hflags, ⟨hxlo, hxhi⟩, hylo, hyhi⟩ := h
  refine (u16le_readsBack hflags).bind ((u16le_readsBack (toUnsigned_lt 16 dx)).bind ?_)
  refine (u16le_readsBack (toUnsigned_lt 16 dy)).map ?_
  rw [toSigned_toUnsigned hxlo hxhi, toSigned_toUnsigned hylo hyhi]
  exact ReadsBack.pure _

theorem skip_readsBack (bytes : List UInt8) : (Reader.skip bytes.length).ReadsBack bytes () :=
  fun rest o => Reader.skip_append bytes rest o rfl

theorem readCodeEvent_readsBack {event : ℕ → ℕ → InputEvent} {flags code : ℕ} (hflags : flags < 2 ^ 16)
    (hcode : code < 2 ^ 16) : (readCodeEvent event).ReadsBack (writeFields flags code 0) (event flags code) :=
  (u16le_readsBack hflags).bind ((u16le_readsBack hcode).bind ((skip_readsBack (Writer.u16le 0)).map (ReadsBack.pure _)))

theorem decodeSlowPathEvent_readsBack {e : InputEvent} (h : e.Typed) (hqoe : isQoeTimestamp e = false) :
    decodeSlowPathEvent.ReadsBack (encodeSlowPathEvent e) e := by
  have htype : ∀ {type : ℕ} {fields : List UInt8}, type < 2 ^ 16 → (∀ o, (slowPathEvent o type).ReadsBack fields e) →
      decodeSlowPathEvent.ReadsBack (Writer.u32le 0 ++ (Writer.u16le type ++ fields)) e := fun hlt hfields =>
    (skip_readsBack (Writer.u32le 0)).bind (.at_ fun o => (u16le_readsBack hlt).bind (hfields o))
  cases e with
  | keyboard flags code | unicodeKeyboard flags code => exact htype (by decide) fun _ => readCodeEvent_readsBack h.1 h.2
  | mouse flags x y | extendedMouse flags x y =>
    exact htype (by decide) fun _ => readPointerEvent_readsBack h.1 h.2.1 h.2.2
  | relativeMouse flags dx dy => exact htype (by decide) fun _ => readRelativeEvent_readsBack h
  | sync toggleFlags =>
    refine htype (by decide) fun _ => (skip_readsBack (Writer.u16le 0)).bind ?_
    exact (u32le_readsBack h).map (ReadsBack.pure _)
  | qoeTimestamp timestamp => cases hqoe

variable {events : List InputEvent}

/-- **On the slow path events come back**, but for the timestamps, which it does not carry. -/
theorem decodeSlowPathInput_readsBack (h : ∀ e ∈ events, e.Typed)
    (hcount : (events.filter fun e => !isQoeTimestamp e).length ≤ maxSlowPathInputEvents) :
    decodeSlowPathInput.ReadsBack (encodeSlowPathInput events) (events.filter fun e => !isQoeTimestamp e) := by
  refine .at_ fun _ => (u16le_readsBack (lt_of_le_of_lt hcount (by decide))).bind (.unless (not_lt.mpr hcount) ?_)
  refine (skip_readsBack (Writer.u16le 0)).bind (readMany_readsBack _ fun e he => ?_)
  obtain ⟨hmem, hqoe⟩ := mem_filter.mp he
  exact decodeSlowPathEvent_readsBack (h e hmem) (by simpa using hqoe)

/-! ### The flags of the fast path -/

theorem and_twoPow_cases (flags i : ℕ) : flags &&& 2 ^ i = 0 ∨ flags &&& 2 ^ i = 2 ^ i := by
  rw [Nat.and_two_pow]
  cases flags.testBit i <;> simp

/-- Three bits of sixteen come back from three of five. -/
theorem keyboardFlags_fastpath {flags : ℕ} (h : flags &&& (release ||| extended ||| extended1) = flags) :
    keyboardFlagsFromFastpath (keyboardFlagsToFastpath flags) = flags ∧ keyboardFlagsToFastpath flags < 32 := by
  have hrelease : flags &&& release = 0 ∨ flags &&& release = release := and_twoPow_cases flags 15
  have hextended : flags &&& extended = 0 ∨ flags &&& extended = extended := and_twoPow_cases flags 8
  have hextended1 : flags &&& extended1 = 0 ∨ flags &&& extended1 = extended1 := and_twoPow_cases flags 9
  have hparts : (flags &&& release) ||| (flags &&& extended) ||| (flags &&& extended1) = flags := by
    rw [← Nat.and_or_distrib_left, ← Nat.and_or_distrib_left, h]
  have hback : keyboardFlagsFromFastpath (keyboardFlagsToFastpath flags) =
      (flags &&& release) ||| (flags &&& extended) ||| (flags &&& extended1) ∧ keyboardFlagsToFastpath flags < 32 := by
    unfold keyboardFlagsToFastpath
    rcases hrelease with hr | hr <;> rcases hextended with he | he <;> rcases hextended1 with he1 | he1 <;>
      rw [hr, he, he1] <;> decide
  exact ⟨hback.1.trans hparts, hback.2⟩

theorem eventHeader_readsBack {code flags : ℕ} {fields : List UInt8} {e : InputEvent} (hcode : code < 8)
    (hflags : flags < 32) (h : ∀ o, (fastpathEvent o flags code).ReadsBack fields e) :
    decodeFastpathEvent.ReadsBack (eventHeader code flags ++ fields) e := by
  have htable : ∀ code < 8, ∀ flags < 32, (code <<< 5 ||| (flags &&& 0x1F)) < 2 ^ 8 ∧
      (code <<< 5 ||| (flags &&& 0x1F)) &&& 0x1F = flags ∧ (code <<< 5 ||| (flags &&& 0x1F)) >>> 5 = code := by decide
  obtain ⟨hbyte, hlow, hhigh⟩ := htable code hcode flags hflags
  refine .at_ fun o => (u8_readsBack hbyte).bind ?_
  rw [hlow, hhigh]
  exact h o

theorem encodeFastpathEvent_readsBack {e : InputEvent} (h : e.Typed) (hfits : e.FitsFastpath) :
    ∃ bytes, encodeFastpathEvent e = some bytes ∧ decodeFastpathEvent.ReadsBack bytes e ∧ bytes.length ≤ 7 := by
  cases e with
  | keyboard flags code =>
    obtain ⟨hflags, hcode⟩ := hfits
    obtain ⟨hback, hlt⟩ := keyboardFlags_fastpath hflags
    refine ⟨eventHeader 0 (keyboardFlagsToFastpath flags) ++ Writer.u8 code, ?_, ?_, by simp [eventHeader]⟩
    · rw [encodeFastpathEvent, asserts, if_pos hcode]
      rfl
    · refine eventHeader_readsBack (by decide) hlt fun _ => (u8_readsBack (by omega)).map ?_
      rw [hback]
      exact ReadsBack.pure _
  | unicodeKeyboard flags code =>
    refine ⟨_, rfl, eventHeader_readsBack (by decide) (by split_ifs <;> decide) fun _ => (u16le_readsBack h.2).map ?_,
      by simp [eventHeader]⟩
    have hback : (if (if flags &&& release ≠ 0 then fpKbdRelease else 0) &&& fpKbdRelease ≠ 0 then release else 0) =
        flags := by
      have hrelease : flags &&& release = 0 ∨ flags &&& release = release := and_twoPow_cases flags 15
      have hflags : flags &&& release = flags := hfits
      rcases hrelease with hr | hr <;> rw [hr] at hflags ⊢ <;> rw [← hflags] <;> decide
    rw [hback]
    exact ReadsBack.pure _
  | mouse flags x y | extendedMouse flags x y =>
    exact ⟨_, rfl, eventHeader_readsBack (by decide) (by decide) fun _ => readPointerEvent_readsBack h.1 h.2.1 h.2.2,
      by simp [eventHeader, writeFields]⟩
  | relativeMouse flags dx dy =>
    exact ⟨_, rfl, eventHeader_readsBack (by decide) (by decide) fun _ => readRelativeEvent_readsBack h,
      by simp [eventHeader, writeRelativeEvent, writeFields]⟩
  | sync toggleFlags =>
    have hlt : toggleFlags < 32 := hfits
    have hheader : decodeFastpathEvent.ReadsBack (eventHeader 3 toggleFlags ++ []) (.sync toggleFlags) :=
      eventHeader_readsBack (by decide) hlt fun _ => ReadsBack.pure _
    refine ⟨_, rfl, ?_, by simp [eventHeader]⟩
    rwa [Nat.mod_eq_of_lt (by omega)]
  | qoeTimestamp timestamp =>
    exact ⟨_, rfl, eventHeader_readsBack (by decide) (by decide) fun _ => (u32le_readsBack h).map (ReadsBack.pure _),
      by simp [eventHeader]⟩

/-! ### The fast-path PDU -/

theorem encodeFastpathEvents_readsBack : ∀ {events : List InputEvent}, (∀ e ∈ events, e.Typed ∧ e.FitsFastpath) →
    ∃ bytes, encodeFastpathEvents events = some bytes ∧
      (readMany decodeFastpathEvent events.length).ReadsBack bytes events ∧ bytes.length ≤ 7 * events.length
  | [], _ => ⟨[], rfl, ReadsBack.pure [], by simp⟩
  | e :: events, h => by
    obtain ⟨he, hevents⟩ := forall_mem_cons.mp h
    obtain ⟨bytes, hbytes, hback, hlen⟩ := encodeFastpathEvent_readsBack he.1 he.2
    obtain ⟨rest, hrest, hbackRest, hlenRest⟩ := encodeFastpathEvents_readsBack hevents
    refine ⟨bytes ++ rest, ?_, hback.bind (hbackRest.map (ReadsBack.pure _)), ?_⟩
    · rw [encodeFastpathEvents, hbytes, hrest]
      rfl
    · rw [length_append, length_cons]
      omega

theorem readLength_readsBack {length : ℕ} (h : length ≤ 0x7FFF) :
    readLength.ReadsBack (Writer.u16be (0x8000 ||| length)) length := by
  obtain ⟨hflag, hlength⟩ := Fastpath.length_octets h
  rw [Fastpath.u16be_length h]
  refine (u8_readsBack (show 0x80 + length / 256 < 2 ^ 8 by omega)).bind ?_
  rw [if_pos hflag]
  refine (u8_readsBack (show length % 256 < 2 ^ 8 by omega)).map ?_
  rw [hlength]
  exact ReadsBack.pure _

/-- What the header of `encode_fastpath_input` says of the count. -/
def headerOf (events : List InputEvent) : ℕ := if countInHeader events then events.length <<< 2 else 0

/-- The count, where it is not in the header. -/
def countBytes (events : List InputEvent) : List UInt8 := if countInHeader events then [] else Writer.u8 events.length

theorem headerOf_spec (h : events.length ≤ 0xFF) :
    headerOf events < 2 ^ 8 ∧ headerOf events ≠ 3 ∧ headerOf events &&& 0x03 = 0 ∧
      headerOf events >>> 6 &&& (fpFlagEncrypted ||| fpFlagSecureChecksum) = 0 ∧
      (readCount (headerOf events)).ReadsBack (countBytes events) events.length := by
  unfold headerOf countBytes readCount
  by_cases hin : countInHeader events = true
  · rw [if_pos hin, if_pos hin]
    have htable : ∀ n < 16, n ≠ 0 → n <<< 2 < 2 ^ 8 ∧ n <<< 2 ≠ 3 ∧ n <<< 2 &&& 0x03 = 0 ∧
        n <<< 2 >>> 6 &&& (fpFlagEncrypted ||| fpFlagSecureChecksum) = 0 ∧ n <<< 2 >>> 2 &&& 0x0F = n := by decide
    simp only [countInHeader, Bool.and_eq_true, decide_eq_true_eq, Bool.not_eq_true', isEmpty_eq_false_iff] at hin
    have hne := length_pos_of_ne_nil hin.1
    obtain ⟨hlt, hthree, haction, hflags, hcount⟩ := htable events.length hin.2 (by omega)
    refine ⟨hlt, hthree, haction, hflags, ?_⟩
    rw [hcount, if_neg (by omega)]
    exact ReadsBack.pure _
  · rw [if_neg hin, if_neg hin]
    exact ⟨by decide, by decide, by decide, by decide, u8_readsBack (by omega)⟩

/-- **On the fast path every event comes back**, and the front of the PDU tells its length. -/
theorem decodeFastpathInput_reads (hcount : events.length ≤ 0xFF) (h : ∀ e ∈ events, e.Typed ∧ e.FitsFastpath) :
    ∃ pdu, encodeFastpathInput events = some pdu ∧ decodeFastpathInput.Reads pdu events ∧
      ∀ rest, peekFrame (pdu ++ rest) = .ok (some ⟨.fastpath, pdu.length⟩) := by
  obtain ⟨bytes, hbytes, hback, hlen⟩ := encodeFastpathEvents_readsBack h
  obtain ⟨hlt, hthree, haction, hflags, hread⟩ := headerOf_spec hcount
  have hcountBytes : (countBytes events).length ≤ 1 := by
    unfold countBytes
    split_ifs <;> simp
  obtain ⟨length, hlength⟩ : ∃ length, length = 1 + 2 + ((countBytes events).length + bytes.length) := ⟨_, rfl⟩
  have hmax : length ≤ 0x7FFF := by omega
  have hsize : (Writer.u8 (headerOf events) ++ (Writer.u16be (0x8000 ||| length) ++
      (countBytes events ++ bytes))).length = length := by
    simp only [length_append, Writer.u8_length, Writer.u16be_length]
    omega
  refine ⟨Writer.u8 (headerOf events) ++ (Writer.u16be (0x8000 ||| length) ++ (countBytes events ++ bytes)),
    ?_, ?_, fun rest => ?_⟩
  · simp only [encodeFastpathInput, Option.bind_eq_bind, Option.bind_eq_some_iff, asserts_eq_some]
    refine ⟨(), hcount, bytes, hbytes, (), ?_, ?_⟩
    · exact hlength ▸ hmax
    · rw [hlength]
      rfl
  · refine .at_ fun start => .left ?_
    rw [hsize]
    refine (u8_readsBack hlt).then ?_
    rw [if_neg (not_not.mpr haction), if_neg (not_not.mpr hflags)]
    refine (readLength_readsBack hmax).then ?_
    rw [if_neg (not_not.mpr rfl)]
    refine hread.then (hback.last ?_)
    exact expectEnd_reads _ (ReadsBack.pure _).reads
  · rw [hsize]
    exact Fastpath.peekFrame_octets hthree haction hlt (by omega) hmax _

/-- **Both paths bring the same events**, but for the timestamps that only one of them carries. -/
theorem input_roundTrip {events : List InputEvent} (h : ∀ e ∈ events, e.Typed) :
    (events.length ≤ 0xFF → (∀ e ∈ events, e.FitsFastpath) →
      ∃ pdu, encodeFastpathInput events = some pdu ∧ decodeFastpathInput.Reads pdu events ∧
        ∀ rest, peekFrame (pdu ++ rest) = .ok (some ⟨.fastpath, pdu.length⟩)) ∧
    ((events.filter fun e => !isQoeTimestamp e).length ≤ maxSlowPathInputEvents →
      decodeSlowPathInput.ReadsBack (encodeSlowPathInput events) (events.filter fun e => !isQoeTimestamp e)) :=
  ⟨fun hcount hfits => decodeFastpathInput_reads hcount fun e he => ⟨h e he, hfits e he⟩,
    decodeSlowPathInput_readsBack h⟩

def typed : List InputEvent :=
  .qoeTimestamp 7 :: List.replicate 8 (.keyboard release 0x1E) ++ List.replicate 8 (.relativeMouse 0x0800 (-3) 2)

theorem input_roundTrip_typed :
    (∃ pdu, encodeFastpathInput typed = some pdu ∧ decodeFastpathInput.Reads pdu typed) ∧
      decodeSlowPathInput.ReadsBack (encodeSlowPathInput typed) (typed.filter fun e => !isQoeTimestamp e) := by
  have hboth := @input_roundTrip typed fun e he => by
    simp only [typed, mem_cons, mem_append, mem_replicate] at he
    rcases he with (rfl | ⟨-, rfl⟩) | ⟨-, rfl⟩ <;> simp [InputEvent.Typed, release]
  obtain ⟨pdu, hpdu, hreads, -⟩ := hboth.1 (by decide) fun e he => by
    simp only [typed, mem_cons, mem_append, mem_replicate] at he
    rcases he with (rfl | ⟨-, rfl⟩) | ⟨-, rfl⟩ <;> simp [InputEvent.FitsFastpath, release, extended, extended1]
  exact ⟨⟨pdu, hpdu, hreads⟩, hboth.2 (by decide)⟩

end Input
end Proto
end Farland
