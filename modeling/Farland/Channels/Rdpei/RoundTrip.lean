/-
# Input channel PDUs, both ways

The encoder of the client's PDUs, the decoder of the server's and the
variable-length integers they are made of (`channels/rdpei.cpp`). An encoder
asserts that values and counts are in range; it gives `none` where the source
aborts. The five integer formats differ in how many bits their length field
and their first byte hold, and are each a `Format`.

Key theorems: `unsigned_format`, `signed_format`, `decode_encodeClient`,
`rdpei_roundTrip`.
-/
import Farland.Base.ReadBack
import Farland.Channels.Rdpei.Pdu

namespace Farland
namespace Channels
namespace Rdpei

open Parse List Writer Gives

/-! ### Writing variable-length integers -/

def maxTwoByteUnsigned : ℕ := 0x7FFF
def maxTwoByteSigned : ℕ := 0x3FFF
def maxFourByteUnsigned : ℕ := 0x3FFFFFFF
def maxFourByteSigned : ℕ := 0x1FFFFFFF
def maxEightByteUnsigned : ℕ := 0x1FFFFFFFFFFFFFFF

variable (value : ℕ)

/-- The low `count` bytes of `value`, most significant first. -/
def writeTail : ℕ → List UInt8
  | 0 => []
  | count + 1 => u8 (value >>> (8 * count) &&& 0xFF) ++ writeTail count

/-- The number of bytes, 1 to `maxBytes`, that hold `value` when the first
carries `firstBits` of it. -/
def byteCount (firstBits maxBytes : ℕ) : ℕ :=
  ((List.range' 1 (maxBytes - 1)).find? fun n => value < 1 <<< (firstBits + 8 * (n - 1))).getD maxBytes

def writeTwoByteUnsigned : Option (List UInt8) := do
  asserts (value ≤ maxTwoByteUnsigned)
  let n := byteCount value 7 2
  pure (u8 ((if n = 2 then 0x80 else 0) ||| value >>> (8 * (n - 1))) ++ writeTail value (n - 1))

def writeTwoByteSigned (value : ℤ) : Option (List UInt8) := do
  asserts (-(maxTwoByteSigned : ℤ) ≤ value ∧ value ≤ maxTwoByteSigned)
  let magnitude := value.natAbs
  let n := byteCount magnitude 6 2
  pure (u8 ((if n = 2 then 0x80 else 0) ||| (if value < 0 then 0x40 else 0) ||| magnitude >>> (8 * (n - 1))) ++
    writeTail magnitude (n - 1))

def writeFourByteUnsigned : Option (List UInt8) := do
  asserts (value ≤ maxFourByteUnsigned)
  let n := byteCount value 6 4
  pure (u8 ((n - 1) <<< 6 ||| value >>> (8 * (n - 1))) ++ writeTail value (n - 1))

def writeFourByteSigned (value : ℤ) : Option (List UInt8) := do
  asserts (-(maxFourByteSigned : ℤ) ≤ value ∧ value ≤ maxFourByteSigned)
  let magnitude := value.natAbs
  let n := byteCount magnitude 5 4
  pure (u8 ((n - 1) <<< 6 ||| (if value < 0 then 0x20 else 0) ||| magnitude >>> (8 * (n - 1))) ++
    writeTail magnitude (n - 1))

def writeEightByteUnsigned : Option (List UInt8) := do
  asserts (value ≤ maxEightByteUnsigned)
  let n := byteCount value 5 8
  pure (u8 ((n - 1) <<< 5 ||| value >>> (8 * (n - 1))) ++ writeTail value (n - 1))

/-! ### Tails -/

theorem writeTail_length : ∀ count, (writeTail value count).length = count
  | 0 => rfl
  | count + 1 => by rw [writeTail, length_append, writeTail_length count, u8_length, Nat.add_comm]

theorem shift_or_low (x : ℕ) : (x >>> 8) <<< 8 ||| (x &&& 0xFF) = x := by
  have hlow : x &&& 0xFF = x % 2 ^ 8 := Nat.and_two_pow_sub_one_eq_mod x 8
  have hlt : x % 2 ^ 8 < 2 ^ 8 := Nat.mod_lt _ (by norm_num)
  rw [hlow, ← Nat.shiftLeft_add_eq_or_of_lt hlt]
  omega

/-- Below the high bits of a value, its tail gives it back. -/
theorem readTail_readsBack : ∀ count, (readTail (value >>> (8 * count)) count).ReadsBack (writeTail value count) value
  | 0 => ReadsBack.pure value
  | count + 1 => by
    have hlow : value >>> (8 * count) &&& 0xFF < 2 ^ 8 := by
      have hle : value >>> (8 * count) &&& 0xFF ≤ 0xFF := Nat.and_le_right
      omega
    have hshift : value >>> (8 * (count + 1)) = value >>> (8 * count) >>> 8 := by
      rw [← Nat.shiftRight_add, Nat.mul_succ]
    refine (u8_readsBack hlow).bind ?_
    rw [hshift, shift_or_low]
    exact readTail_readsBack count

theorem or_byte_lt {value byte bits : ℕ} (hv : value < 2 ^ bits) (hb : byte < 256) :
    value <<< 8 ||| byte < 2 ^ (bits + 8) := by
  rw [← Nat.shiftLeft_add_eq_or_of_lt (b := byte) (i := 8) (by omega), pow_add]
  omega

/-- A tail of `count` bytes gives `8 * count` more bits. -/
theorem readTail_run {bits : ℕ} : ∀ {count value : ℕ} {r r' : Reader} {v : ℕ}, value < 2 ^ bits →
    readTail value count r = .ok (v, r') → v < 2 ^ (bits + 8 * count) ∧ r'.rest.length + count ≤ r.rest.length
  | 0, value, r, r', v, hv, h => by
    cases h
    exact ⟨hv, le_rfl⟩
  | count + 1, value, r, r', v, hv, h => by
    obtain ⟨byte, r₁, hbyte, h⟩ := of_bind_ok h
    have hlt : byte < 256 := Reader.readLe_lt hbyte
    have htook := readLe_consumes 1 r byte r₁ hbyte
    obtain ⟨hbound, hrest⟩ := readTail_run (or_byte_lt hv hlt) h
    refine ⟨?_, by omega⟩
    rwa [show bits + 8 * (count + 1) = bits + 8 + 8 * count by omega]

/-! ### The number of bytes -/

variable {maxBytes : ℕ}

/-- What is enough for `value`, and as few as can be. -/
theorem byteCount_spec (firstBits : ℕ) {value : ℕ} (hmax : 1 ≤ maxBytes)
    (h : value < 2 ^ (firstBits + 8 * (maxBytes - 1))) :
    (∃ c, byteCount value firstBits maxBytes = c + 1 ∧ c < maxBytes ∧ value < 2 ^ (firstBits + 8 * c)) ∧
      ∀ c < maxBytes, value < 2 ^ (firstBits + 8 * c) → byteCount value firstBits maxBytes ≤ c + 1 := by
  unfold byteCount
  rcases hfind : (List.range' 1 (maxBytes - 1)).find? (fun n => value < 1 <<< (firstBits + 8 * (n - 1))) with _ | n
  · rw [find?_eq_none] at hfind
    refine ⟨⟨maxBytes - 1, by rw [Option.getD_none]; omega, by omega, h⟩, fun c hc hv => ?_⟩
    rw [Option.getD_none]
    by_contra hlt
    have hmem : c + 1 ∈ List.range' 1 (maxBytes - 1) := by
      rw [mem_range'_1]
      omega
    have hnot := hfind (c + 1) hmem
    rw [Nat.one_shiftLeft, decide_eq_true_eq] at hnot
    exact hnot hv
  · rw [find?_range'_eq_some] at hfind
    obtain ⟨hn, hmem, hleast⟩ := hfind
    rw [mem_range'_1] at hmem
    rw [Nat.one_shiftLeft, decide_eq_true_eq] at hn
    rw [Option.getD_some]
    refine ⟨⟨n - 1, by omega, by omega, hn⟩, fun c hc hv => ?_⟩
    by_contra hlt
    have hnot := hleast (c + 1) (by omega) (by omega)
    rw [Nat.one_shiftLeft, Bool.not_eq_true', decide_eq_false_iff_not] at hnot
    exact hnot hv

/-- The high bits of a value are what its first byte holds. -/
theorem high_lt {value firstBits c : ℕ} (h : value < 2 ^ (firstBits + 8 * c)) : value >>> (8 * c) < 2 ^ firstBits := by
  rw [Nat.shiftRight_eq_div_pow]
  rw [pow_add] at h
  exact Nat.div_lt_of_lt_mul (by rwa [Nat.mul_comm])

/-! ### The five formats -/

theorem asserts_then_isSome {c : Prop} [Decidable c] {xs : List UInt8} :
    (do asserts c; pure xs : Option (List UInt8)).isSome ↔ c := by
  unfold asserts
  split_ifs with h <;> simp [h]

variable {bytes : List UInt8}

theorem asserts_then {c : Prop} [Decidable c] {xs : List UInt8}
    (h : (do asserts c; pure xs : Option (List UInt8)) = some bytes) : c ∧ xs = bytes := by
  obtain ⟨_, hc, h⟩ := Option.bind_eq_some_iff.mp h
  exact ⟨asserts_eq_some.mp hc, Option.some.inj h⟩

/-- Whatever a first byte and its tail give could not have been written in fewer bytes. -/
theorem tail_fewest {low count : ℕ → ℕ} {bits b v : ℕ} {r r₁ r' : Reader} (hmax : 1 ≤ maxBytes)
    (hlow : ∀ b < 256, low b < 2 ^ bits ∧ count b < maxBytes) (hb : Reader.u8 r = .ok (b, r₁))
    (h : readTail (low b) (count b) r₁ = .ok (v, r')) :
    v < 2 ^ (bits + 8 * (maxBytes - 1)) ∧
      ∀ byte, r'.rest.length + (u8 byte ++ writeTail v (byteCount v bits maxBytes - 1)).length ≤
        r.rest.length := by
  obtain ⟨hbits, hcount⟩ := hlow b (Reader.readLe_lt hb)
  have htook := readLe_consumes 1 r b r₁ hb
  obtain ⟨hlt, hrest⟩ := readTail_run hbits h
  have hle : bits + 8 * count b ≤ bits + 8 * (maxBytes - 1) := by omega
  have hv : v < 2 ^ (bits + 8 * (maxBytes - 1)) := hlt.trans_le (Nat.pow_le_pow_right (by norm_num) hle)
  obtain ⟨⟨c, hc, -, -⟩, hleast⟩ := byteCount_spec bits hmax hv
  have hfew := hleast (count b) hcount hlt
  refine ⟨hv, fun byte => ?_⟩
  rw [length_append, u8_length, writeTail_length]
  omega

/-- A format without a sign: `first` puts together what `low` and `count` take apart. -/
theorem unsigned_format (low count : ℕ → ℕ) (first : ℕ → ℕ → ℕ) {bits max : ℕ} (hmax : 1 ≤ maxBytes)
    (hrange : max + 1 = 2 ^ (bits + 8 * (maxBytes - 1))) (hfirst : ∀ c < maxBytes, ∀ high < 2 ^ bits,
      first (c + 1) high < 2 ^ 8 ∧ low (first (c + 1) high) = high ∧ count (first (c + 1) high) = c)
    (hlow : ∀ b < 256, low b < 2 ^ bits ∧ count b < maxBytes) :
    Format (do let b ← Reader.u8; readTail (low b) (count b)) (fun value => do
        asserts (value ≤ max)
        let n := byteCount value bits maxBytes
        pure (u8 (first n (value >>> (8 * (n - 1)))) ++ writeTail value (n - 1)))
      (· ≤ max) where
  asserted _ := asserts_then_isSome
  readsBack v bytes h := by
    obtain ⟨hv, rfl⟩ := asserts_then h
    obtain ⟨⟨c, hc, hcmax, hlt⟩, -⟩ := byteCount_spec bits hmax (show v < _ by omega)
    obtain ⟨hbyte, hl, hn⟩ := hfirst c hcmax _ (high_lt hlt)
    rw [hc]
    refine (u8_readsBack hbyte).bind ?_
    rw [hl, hn]
    exact readTail_readsBack v c
  fewest r v r' h := by
    obtain ⟨b, r₁, hb, h⟩ := of_bind_ok h
    obtain ⟨hv, hrest⟩ := tail_fewest hmax hlow hb h
    exact ⟨_, by rw [asserts, if_pos (show v ≤ max by omega)]; rfl, hrest _⟩

/-- A format with a sign bit beside them. -/
theorem signed_format (low count sign : ℕ → ℕ) (first : ℕ → ℕ → ℕ → ℕ) {bits max signBit : ℕ} (hmax : 1 ≤ maxBytes)
    (hrange : max + 1 = 2 ^ (bits + 8 * (maxBytes - 1))) (hsign : signBit ≠ 0)
    (hfirst : ∀ c < maxBytes, ∀ s ∈ [signBit, 0], ∀ high < 2 ^ bits, first (c + 1) s high < 2 ^ 8 ∧
      low (first (c + 1) s high) = high ∧ count (first (c + 1) s high) = c ∧ sign (first (c + 1) s high) = s)
    (hlow : ∀ b < 256, low b < 2 ^ bits ∧ count b < maxBytes) :
    Format (do
        let b ← Reader.u8
        let magnitude ← readTail (low b) (count b)
        pure (if sign b ≠ 0 then -(magnitude : ℤ) else magnitude))
      (fun value => do
        asserts (-(max : ℤ) ≤ value ∧ value ≤ max)
        let magnitude := value.natAbs
        let n := byteCount magnitude bits maxBytes
        pure (u8 (first n (if value < 0 then signBit else 0) (magnitude >>> (8 * (n - 1)))) ++
          writeTail magnitude (n - 1)))
      (fun value => -(max : ℤ) ≤ value ∧ value ≤ max) where
  asserted _ := asserts_then_isSome
  readsBack v bytes h := by
    obtain ⟨hv, rfl⟩ := asserts_then h
    have hs : (if v < 0 then signBit else 0) ∈ [signBit, 0] := by split_ifs <;> simp
    obtain ⟨⟨c, hc, hcmax, hlt⟩, -⟩ := byteCount_spec bits hmax (show v.natAbs < _ by omega)
    obtain ⟨hbyte, hl, hn, hsgn⟩ := hfirst c hcmax _ hs _ (high_lt hlt)
    rw [hc]
    refine (u8_readsBack hbyte).bind ?_
    rw [hl, hn, hsgn]
    refine (readTail_readsBack v.natAbs c).map ?_
    have hvalue : (if (if v < 0 then signBit else 0) ≠ 0 then -(v.natAbs : ℤ) else v.natAbs) = v := by
      by_cases hneg : v < 0
      · rw [if_pos hneg]
        omega
      · rw [if_neg hneg]
        omega
    rw [hvalue]
    exact ReadsBack.pure v
  fewest r v r' h := by
    obtain ⟨b, r₁, hb, h⟩ := of_bind_ok h
    obtain ⟨magnitude, r₂, hm, h⟩ := of_bind_ok h
    cases h
    obtain ⟨hv, hrest⟩ := tail_fewest hmax hlow hb hm
    generalize hw : (if sign b ≠ 0 then -(magnitude : ℤ) else magnitude) = w
    have habs : w.natAbs = magnitude := by
      rw [← hw]
      split_ifs <;> omega
    refine ⟨_, by rw [asserts, if_pos (show -(max : ℤ) ≤ w ∧ w ≤ max by omega)]; rfl, ?_⟩
    rw [habs]
    exact hrest _

theorem twoByteUnsigned_format :
    Format readTwoByteUnsigned writeTwoByteUnsigned (· ≤ maxTwoByteUnsigned) :=
  unsigned_format (fun b => b &&& 0x7F) (fun b => if b &&& 0x80 ≠ 0 then 1 else 0)
    (fun n high => (if n = 2 then 0x80 else 0) ||| high) (by norm_num) (by decide) (by decide +kernel)
    (by decide +kernel)

theorem twoByteSigned_format : Format readTwoByteSigned writeTwoByteSigned
    (fun v => -(maxTwoByteSigned : ℤ) ≤ v ∧ v ≤ maxTwoByteSigned) :=
  signed_format (fun b => b &&& 0x3F) (fun b => if b &&& 0x80 ≠ 0 then 1 else 0) (fun b => b &&& 0x40)
    (fun n sign high => (if n = 2 then 0x80 else 0) ||| sign ||| high) (by norm_num) (by decide) (by norm_num)
    (by decide +kernel) (by decide +kernel)

theorem fourByteUnsigned_format :
    Format readFourByteUnsigned writeFourByteUnsigned (· ≤ maxFourByteUnsigned) :=
  unsigned_format (fun b => b &&& 0x3F) (fun b => b >>> 6) (fun n high => (n - 1) <<< 6 ||| high) (by norm_num)
    (by decide) (by decide +kernel) (by decide +kernel)

theorem fourByteSigned_format : Format readFourByteSigned writeFourByteSigned
    (fun v => -(maxFourByteSigned : ℤ) ≤ v ∧ v ≤ maxFourByteSigned) :=
  signed_format (fun b => b &&& 0x1F) (fun b => b >>> 6) (fun b => b &&& 0x20)
    (fun n sign high => (n - 1) <<< 6 ||| sign ||| high) (by norm_num) (by decide) (by norm_num)
    (by decide +kernel) (by decide +kernel)

theorem eightByteUnsigned_format :
    Format readEightByteUnsigned writeEightByteUnsigned (· ≤ maxEightByteUnsigned) :=
  unsigned_format (fun b => b &&& 0x1F) (fun b => b >>> 5) (fun n high => (n - 1) <<< 5 ||| high) (by norm_num)
    (by decide) (by decide +kernel) (by decide +kernel)

/-! ### The client's encoder -/

/-- The flag of a field that is there. -/
def present {α : Type} (flag : ℕ) (field : Option α) : ℕ := if field.isSome then flag else 0

/-- A field that is written when it is there. -/
def writeField {α : Type} (write : α → Option (List UInt8)) : Option α → Option (List UInt8)
  | some value => write value
  | none => some []

def writeContactRect (rect : ContactRect) : Option (List UInt8) :=
  writeAll
    [writeTwoByteSigned rect.left, writeTwoByteSigned rect.top, writeTwoByteSigned rect.right,
      writeTwoByteSigned rect.bottom]

def writeTouchContact (c : TouchContact) : Option (List UInt8) :=
  let fields := present 0x0001 c.contactRect ||| present 0x0002 c.orientation ||| present 0x0004 c.pressure
  writeAll
    [some (u8 c.contactId), writeTwoByteUnsigned fields, writeFourByteSigned c.x, writeFourByteSigned c.y,
      writeFourByteUnsigned c.contactFlags, writeField writeContactRect c.contactRect,
      writeField writeFourByteUnsigned c.orientation, writeField writeFourByteUnsigned c.pressure]

def writePenContact (c : PenContact) : Option (List UInt8) :=
  let fields := present 0x0001 c.penFlags ||| present 0x0002 c.pressure ||| present 0x0004 c.rotation |||
    present 0x0008 c.tiltX ||| present 0x0010 c.tiltY
  writeAll
    [some (u8 c.deviceId), writeTwoByteUnsigned fields, writeFourByteSigned c.x, writeFourByteSigned c.y,
      writeFourByteUnsigned c.contactFlags, writeField writeFourByteUnsigned c.penFlags,
      writeField writeFourByteUnsigned c.pressure, writeField writeTwoByteUnsigned c.rotation,
      writeField writeTwoByteSigned c.tiltX, writeField writeTwoByteSigned c.tiltY]

/-- One frame of `write_event`. -/
def writeFrame {Contact : Type} (contactLimit : ℕ) (writeContact : Contact → Option (List UInt8))
    (frame : Frame Contact) : Option (List UInt8) := do
  asserts (frame.contacts.length ≤ contactLimit)
  writeAll
    [writeTwoByteUnsigned (frame.contacts.length % 2 ^ 16), writeEightByteUnsigned frame.frameOffset,
      writeAll (frame.contacts.map writeContact)]

def writeEvent {Contact : Type} (event : InputEvent Contact) (contactLimit : ℕ)
    (writeContact : Contact → Option (List UInt8)) : Option (List UInt8) := do
  asserts (event.frames.length ≤ maxFrames)
  writeAll
    [writeFourByteUnsigned event.encodeTime, writeTwoByteUnsigned (event.frames.length % 2 ^ 16),
      writeAll (event.frames.map (writeFrame contactLimit writeContact))]

def encodeClientPdu : ClientPdu → Option (List UInt8)
  | .csReady pdu =>
    some (writePdu 0x0002 (u32le pdu.flags ++ u32le pdu.protocolVersion ++
      u16le pdu.maxTouchContacts))
  | .touch event => (writeEvent event maxTouchContactsPerFrame writeTouchContact).map (writePdu 0x0003)
  | .dismissHoveringContact contactId => some (writePdu 0x0006 (u8 contactId))
  | .pen event => (writeEvent event maxPenContactsPerFrame writePenContact).map (writePdu 0x0008)

/-! ### The server's decoder -/

def readScReady : Parse ScReady := do
  let protocolVersion ← Reader.u32le
  let empty ← Reader.atEnd
  let supportedFeatures ← if empty then pure none else some <$> Reader.u32le
  pure ⟨protocolVersion, supportedFeatures⟩

def readServerPdu (size : ℕ) : Parse ServerPdu := do
  let eventId ← readHeader size
  match eventId with
  | 0x0001 => do
    let pdu ← readScReady
    Reader.expectEnd "RDPINPUT_SC_READY_PDU"
    pure (.scReady pdu)
  | 0x0004 => do
    Reader.expectEnd "RDPINPUT_SUSPEND_INPUT_PDU"
    pure .suspendInput
  | 0x0005 => do
    Reader.expectEnd "RDPINPUT_RESUME_INPUT_PDU"
    pure .resumeInput
  | _ => Parse.fail .unsupported "RDPINPUT eventId not sent by servers" 0

/-- One server PDU that fills `bytes` exactly. -/
def decodeServerPdu (bytes : List UInt8) : Result ServerPdu :=
  match readServerPdu bytes.length ⟨bytes, 0⟩ with
  | .ok (pdu, _) => .ok pdu
  | .error e => .error e

/-! ### What the fields of a type can hold -/

structure TouchContact.Typed (c : TouchContact) : Prop where
  contactId : c.contactId < 2 ^ 8

structure PenContact.Typed (c : PenContact) : Prop where
  deviceId : c.deviceId < 2 ^ 8

/-- Every contact of an event is one its fields can hold. -/
def InputEvent.Typed {Contact : Type} (TypedContact : Contact → Prop) (event : InputEvent Contact) : Prop :=
  ∀ frame ∈ event.frames, ∀ contact ∈ frame.contacts, TypedContact contact

/-- The bounds that no encoder asserts: those of the source's integer types. -/
def ClientPdu.Typed : ClientPdu → Prop
  | .csReady pdu => pdu.flags < 2 ^ 32 ∧ pdu.protocolVersion < 2 ^ 32 ∧ pdu.maxTouchContacts < 2 ^ 16
  | .touch event => event.Typed TouchContact.Typed
  | .dismissHoveringContact contactId => contactId < 2 ^ 8
  | .pen event => event.Typed PenContact.Typed

def ServerPdu.Typed : ServerPdu → Prop
  | .scReady pdu => pdu.protocolVersion < 2 ^ 32 ∧ ∀ features ∈ pdu.supportedFeatures, features < 2 ^ 32
  | _ => True

/-! ### Fields -/

theorem byteCount_le (firstBits : ℕ) (hmax : 1 ≤ maxBytes) :
    1 ≤ byteCount value firstBits maxBytes ∧ byteCount value firstBits maxBytes ≤ maxBytes := by
  unfold byteCount
  rcases hfind : (List.range' 1 (maxBytes - 1)).find? (fun n => value < 1 <<< (firstBits + 8 * (n - 1))) with _ | n
  · exact ⟨hmax, le_rfl⟩
  · have hmem := mem_of_find?_eq_some hfind
    rw [mem_range'_1] at hmem
    rw [Option.getD_some]
    omega

/-- What every integer writer puts out. -/
theorem integer_length {byte value firstBits : ℕ} (hmax : 1 ≤ maxBytes) :
    1 ≤ (u8 byte ++ writeTail value (byteCount value firstBits maxBytes - 1)).length ∧
      (u8 byte ++ writeTail value (byteCount value firstBits maxBytes - 1)).length ≤ maxBytes := by
  have hle := byteCount_le value firstBits hmax
  rw [length_append, u8_length, writeTail_length]
  omega

theorem twoByteUnsigned_undoes (v : ℕ) : readTwoByteUnsigned.Undoes (writeTwoByteUnsigned v) v 1 2 := by
  intro bytes h
  refine ⟨twoByteUnsigned_format.readsBack v bytes h, ?_⟩
  obtain ⟨-, rfl⟩ := asserts_then h
  exact integer_length (by norm_num)

theorem twoByteSigned_undoes (v : ℤ) : readTwoByteSigned.Undoes (writeTwoByteSigned v) v 1 2 := by
  intro bytes h
  refine ⟨twoByteSigned_format.readsBack v bytes h, ?_⟩
  obtain ⟨-, rfl⟩ := asserts_then h
  exact integer_length (by norm_num)

theorem fourByteUnsigned_undoes (v : ℕ) : readFourByteUnsigned.Undoes (writeFourByteUnsigned v) v 1 4 := by
  intro bytes h
  refine ⟨fourByteUnsigned_format.readsBack v bytes h, ?_⟩
  obtain ⟨-, rfl⟩ := asserts_then h
  exact integer_length (by norm_num)

theorem fourByteSigned_undoes (v : ℤ) : readFourByteSigned.Undoes (writeFourByteSigned v) v 1 4 := by
  intro bytes h
  refine ⟨fourByteSigned_format.readsBack v bytes h, ?_⟩
  obtain ⟨-, rfl⟩ := asserts_then h
  exact integer_length (by norm_num)

theorem eightByteUnsigned_undoes (v : ℕ) : readEightByteUnsigned.Undoes (writeEightByteUnsigned v) v 1 8 := by
  intro bytes h
  refine ⟨eightByteUnsigned_format.readsBack v bytes h, ?_⟩
  obtain ⟨-, rfl⟩ := asserts_then h
  exact integer_length (by norm_num)

variable {α : Type} {write : α → Option (List UInt8)}

/-- An optional field whose flag says whether it is there. -/
theorem field_undoes {read : Parse α} {lo hi fields flag : ℕ} (field : Option α)
    (h : ∀ a, read.Undoes (write a) a lo hi) (hflag : fields &&& flag ≠ 0 ↔ field.isSome) :
    (readField fields flag read).Undoes (writeField write field) field 0 hi := by
  unfold readField
  cases field with
  | none =>
    rw [if_neg (by simp [hflag])]
    exact Undoes.of_readsBack (ReadsBack.pure none) (Nat.zero_le _) (Nat.zero_le _)
  | some a =>
    rw [if_pos (by simp [hflag])]
    intro bytes hb
    obtain ⟨hback, -, hle⟩ := h a bytes hb
    have hsome : (read >>= fun a => pure (some a)).ReadsBack bytes (some a) := hback.map (ReadsBack.pure (some a))
    exact ⟨hsome, Nat.zero_le _, hle⟩

theorem contactRect_undoes (rect : ContactRect) : readContactRect.Undoes (writeContactRect rect) rect 4 8 := by
  apply Undoes.imp
  · apply (twoByteSigned_undoes rect.left).bind
    apply (twoByteSigned_undoes rect.top).bind
    apply (twoByteSigned_undoes rect.right).bind
    apply (twoByteSigned_undoes rect.bottom).bind
    exact Undoes.pure rect
  · decide
  · decide

/-- Presence flags that are all known. -/
theorem fields_undoes {known fields : ℕ} (what : String) (h : fields ≤ known) :
    (readFields known what).Undoes (writeTwoByteUnsigned fields) fields 1 2 := by
  intro bytes hb
  obtain ⟨hback, hlen⟩ := twoByteUnsigned_undoes fields bytes hb
  refine ⟨hback.map (ReadsBack.at_ fun o => ?_), hlen⟩
  exact ReadsBack.unless (Nat.not_lt.mpr h) (ReadsBack.pure fields)

/-- Each flag of a set is there when its field is. -/
theorem touch_flags (rect orientation pressure : Bool) :
    let fields := (if rect then 0x0001 else 0) ||| (if orientation then 0x0002 else 0) |||
      if pressure then 0x0004 else 0
    fields ≤ 0x0007 ∧ (fields &&& 0x0001 ≠ 0 ↔ rect) ∧ (fields &&& 0x0002 ≠ 0 ↔ orientation) ∧
      (fields &&& 0x0004 ≠ 0 ↔ pressure) := by
  revert rect orientation pressure
  decide

theorem pen_flags (penFlags pressure rotation tiltX tiltY : Bool) :
    let fields := (if penFlags then 0x0001 else 0) ||| (if pressure then 0x0002 else 0) |||
      (if rotation then 0x0004 else 0) ||| (if tiltX then 0x0008 else 0) ||| if tiltY then 0x0010 else 0
    fields ≤ 0x001F ∧ (fields &&& 0x0001 ≠ 0 ↔ penFlags) ∧ (fields &&& 0x0002 ≠ 0 ↔ pressure) ∧
      (fields &&& 0x0004 ≠ 0 ↔ rotation) ∧ (fields &&& 0x0008 ≠ 0 ↔ tiltX) ∧ (fields &&& 0x0010 ≠ 0 ↔ tiltY) := by
  revert penFlags pressure rotation tiltX tiltY
  decide

/-- Byte fields are written unchecked. -/
theorem u8_undoes {v : ℕ} (h : v < 2 ^ 8) : Reader.u8.Undoes (some (u8 v)) v 1 1 :=
  Undoes.of_readsBack (u8_readsBack h) le_rfl le_rfl

theorem touchContact_undoes {c : TouchContact} (h : c.Typed) :
    readTouchContact.Undoes (writeTouchContact c) c 5 31 := by
  obtain ⟨hknown, hrect, horientation, hpressure⟩ :=
    touch_flags c.contactRect.isSome c.orientation.isSome c.pressure.isSome
  apply Undoes.imp
  · apply (u8_undoes h.contactId).bind
    apply (fields_undoes _ hknown).bind
    apply (fourByteSigned_undoes c.x).bind
    apply (fourByteSigned_undoes c.y).bind
    apply (fourByteUnsigned_undoes c.contactFlags).bind
    apply (field_undoes c.contactRect contactRect_undoes hrect).bind
    apply (field_undoes c.orientation fourByteUnsigned_undoes horientation).bind
    apply (field_undoes c.pressure fourByteUnsigned_undoes hpressure).bind
    exact Undoes.pure c
  · decide
  · decide

theorem penContact_undoes {c : PenContact} (h : c.Typed) : readPenContact.Undoes (writePenContact c) c 5 29 := by
  obtain ⟨hknown, hpen, hpressure, hrotation, htiltX, htiltY⟩ :=
    pen_flags c.penFlags.isSome c.pressure.isSome c.rotation.isSome c.tiltX.isSome c.tiltY.isSome
  apply Undoes.imp
  · apply (u8_undoes h.deviceId).bind
    apply (fields_undoes _ hknown).bind
    apply (fourByteSigned_undoes c.x).bind
    apply (fourByteSigned_undoes c.y).bind
    apply (fourByteUnsigned_undoes c.contactFlags).bind
    apply (field_undoes c.penFlags fourByteUnsigned_undoes hpen).bind
    apply (field_undoes c.pressure fourByteUnsigned_undoes hpressure).bind
    apply (field_undoes c.rotation twoByteUnsigned_undoes hrotation).bind
    apply (field_undoes c.tiltX twoByteSigned_undoes htiltX).bind
    apply (field_undoes c.tiltY twoByteSigned_undoes htiltY).bind
    exact Undoes.pure c
  · decide
  · decide

variable (tooMany : String) {limit : ℕ}

/-- A counted array within its limit, of elements that are at least `minSize` bytes. -/
theorem array_undoes {readOne : Parse α} {lo hi minSize : ℕ} (l : List α)
    (hone : ∀ a ∈ l, readOne.Undoes (write a) a lo hi) (hmin : 0 < minSize) (hlo : minSize ≤ lo)
    (hlimit : l.length ≤ limit) :
    (readArray readOne l.length limit minSize tooMany).Undoes (writeAll (l.map write)) l 0 (hi * limit) := by
  intro bytes hb
  obtain ⟨hback, hlen, hhi⟩ := readMany_undoes l hone bytes hb
  refine ⟨fun rest o => ?_, Nat.zero_le _, hhi.trans (Nat.mul_le_mul_left hi hlimit)⟩
  have hleft : l.length ≤ (bytes ++ rest).length / minSize := by
    rw [Nat.le_div_iff_mul_le hmin, length_append, Nat.mul_comm]
    calc minSize * l.length ≤ lo * l.length := Nat.mul_le_mul_right _ hlo
      _ ≤ bytes.length + rest.length := by omega
  unfold readArray
  change (if limit < l.length then _ else if (bytes ++ rest).length / minSize < l.length then _ else _ : Parse _) _ = _
  rw [if_neg (Nat.not_lt.mpr hlimit), if_neg (Nat.not_lt.mpr hleft)]
  exact hback rest o

variable {Contact : Type} {writeContact : Contact → Option (List UInt8)} {readContact : Parse Contact}

theorem frame_undoes {hi : ℕ} (frame : Frame Contact) (hlimit : limit < 2 ^ 16)
    (h : ∀ c ∈ frame.contacts, readContact.Undoes (writeContact c) c 5 hi) :
    (readFrame readContact limit tooMany).Undoes (writeFrame limit writeContact frame) frame 2 (10 + hi * limit) := by
  apply Undoes.asserts
  intro hlen
  rw [Nat.mod_eq_of_lt (by omega)]
  apply Undoes.imp
  · apply (twoByteUnsigned_undoes frame.contacts.length).bind
    apply (eightByteUnsigned_undoes frame.frameOffset).bind
    apply (array_undoes tooMany frame.contacts h (by norm_num) le_rfl hlen).bind
    exact Undoes.pure frame
  · decide
  · omega

theorem event_undoes {hi : ℕ} (event : InputEvent Contact) (hlimit : limit < 2 ^ 16)
    (h : ∀ frame ∈ event.frames, ∀ c ∈ frame.contacts, readContact.Undoes (writeContact c) c 5 hi) :
    (readEvent (readFrame readContact limit tooMany)).Undoes (writeEvent event limit writeContact) event 2
      (6 + (10 + hi * limit) * maxFrames) := by
  apply Undoes.asserts
  intro hlen
  rw [Nat.mod_eq_of_lt (by unfold maxFrames at hlen; omega)]
  apply Undoes.imp
  · apply (fourByteUnsigned_undoes event.encodeTime).bind
    apply (twoByteUnsigned_undoes event.frames.length).bind
    apply (array_undoes _ event.frames (fun frame hf => frame_undoes tooMany frame hlimit (h frame hf))
      (by norm_num) le_rfl hlen).bind
    exact Undoes.pure event
  · decide
  · omega

/-! ### PDUs -/

theorem writePdu_length (eventId : ℕ) (body : List UInt8) :
    (writePdu eventId body).length = headerSize + body.length := by
  simp [writePdu, headerSize]
  omega

variable {body : List UInt8} {eventId : ℕ}

/-- The header gives the event id back and leaves the body. -/
theorem readHeader_writePdu (hid : eventId < 2 ^ 16) (hbody : headerSize + body.length < 2 ^ 32) :
    readHeader (writePdu eventId body).length ⟨writePdu eventId body, 0⟩ = .ok (eventId, ⟨body, 6⟩) := by
  have hread : (readHeader (headerSize + body.length)).ReadsBack
      (u16le eventId ++ u32le (headerSize + body.length)) eventId := by
    apply (u16le_readsBack hid).bind
    apply (u32le_readsBack hbody).map
    apply ReadsBack.at_
    intro o
    exact ReadsBack.unless (not_not.mpr rfl) (ReadsBack.pure eventId)
  rw [writePdu_length]
  exact hread body 0

/-- **The first PDU of a stream is framed as a whole.** -/
theorem framePdu_writePdu (hbody : headerSize + body.length < 2 ^ 32) (rest : List UInt8) :
    framePdu (writePdu eventId body ++ rest) (writePdu eventId body).length = .ok (writePdu eventId body).length := by
  have hread : (do Reader.skip 2; Reader.u32le : Parse ℕ) ⟨writePdu eventId body ++ rest, 0⟩ =
      .ok (headerSize + body.length, ⟨body ++ rest, 6⟩) := by
    unfold writePdu
    exact u32le_readsBack hbody _ _
  unfold framePdu
  rw [hread, writePdu_length]
  simp only
  rw [if_neg (by omega), if_neg (by omega), if_neg (by rw [length_append, writePdu_length]; omega)]

/-- A body that is read back ends the PDU. -/
theorem finish_ok {make : α → ClientPdu} {body : Parse α} {what : String} {a : α} {o : ℕ} (h : body.ReadsBack bytes a) :
    ∃ r, finish make body what ⟨bytes, o⟩ = .ok (make a, r) := by
  have hback := h [] o
  rw [append_nil] at hback
  refine ⟨⟨[], o + bytes.length⟩, ?_⟩
  unfold finish
  rw [Parse.bind_ok hback]
  rfl

variable {pdu : ClientPdu}

/-- A client PDU is decoded by what reads the body of its event. -/
theorem decodeClientPdu_writePdu {readBody : ℕ → Parse ClientPdu}
    (heq : ∀ size, readClientPdu size = readHeader size >>= readBody) (hid : eventId < 2 ^ 16)
    (hbody : headerSize + body.length < 2 ^ 32) (h : ∃ r, readBody eventId ⟨body, 6⟩ = .ok (pdu, r)) :
    decodeClientPdu (writePdu eventId body) = .ok pdu := by
  obtain ⟨r, hr⟩ := h
  unfold decodeClientPdu
  rw [heq, Parse.bind_ok (readHeader_writePdu hid hbody), hr]

theorem csReady_readsBack {pdu : CsReady} (h : (ClientPdu.csReady pdu).Typed) :
    readCsReady.ReadsBack (u32le pdu.flags ++ u32le pdu.protocolVersion ++ u16le pdu.maxTouchContacts) pdu := by
  obtain ⟨hflags, hversion, hmax⟩ := h
  apply (u32le_readsBack hflags).bind
  apply (u32le_readsBack hversion).bind
  apply (u16le_readsBack hmax).map
  exact ReadsBack.pure pdu

/-- **A client's PDU comes back.** -/
theorem decode_encodeClient (htyped : pdu.Typed) (h : encodeClientPdu pdu = some bytes) :
    decodeClientPdu bytes = .ok pdu ∧ ∀ rest, framePdu (bytes ++ rest) bytes.length = .ok bytes.length := by
  cases pdu with
  | csReady pdu =>
    cases h
    have hbody : headerSize + (u32le pdu.flags ++ u32le pdu.protocolVersion ++
        u16le pdu.maxTouchContacts).length < 2 ^ 32 := by simp [headerSize]
    refine ⟨decodeClientPdu_writePdu (fun _ => rfl) (by norm_num) hbody ?_, framePdu_writePdu hbody⟩
    exact finish_ok (csReady_readsBack htyped)
  | touch event =>
    obtain ⟨body, hb, rfl⟩ := Option.map_eq_some_iff.mp h
    obtain ⟨hback, -, hle⟩ := event_undoes _ event (by decide)
      (fun frame hf c hc => touchContact_undoes (htyped frame hf c hc)) body hb
    have hbody : headerSize + body.length < 2 ^ 32 := by
      unfold headerSize
      unfold maxTouchContactsPerFrame maxFrames at hle
      omega
    refine ⟨decodeClientPdu_writePdu (fun _ => rfl) (by norm_num) hbody ?_, framePdu_writePdu hbody⟩
    exact finish_ok hback
  | dismissHoveringContact contactId =>
    cases h
    have hbody : headerSize + (u8 contactId).length < 2 ^ 32 := by simp [headerSize]
    refine ⟨decodeClientPdu_writePdu (fun _ => rfl) (by norm_num) hbody ?_, framePdu_writePdu hbody⟩
    exact finish_ok (u8_readsBack htyped)
  | pen event =>
    obtain ⟨body, hb, rfl⟩ := Option.map_eq_some_iff.mp h
    obtain ⟨hback, -, hle⟩ := event_undoes _ event (by decide)
      (fun frame hf c hc => penContact_undoes (htyped frame hf c hc)) body hb
    have hbody : headerSize + body.length < 2 ^ 32 := by
      unfold headerSize
      unfold maxPenContactsPerFrame maxFrames at hle
      omega
    refine ⟨decodeClientPdu_writePdu (fun _ => rfl) (by norm_num) hbody ?_, framePdu_writePdu hbody⟩
    exact finish_ok hback

theorem decodeServerPdu_writePdu {pdu : ServerPdu} {readBody : ℕ → Parse ServerPdu}
    (heq : ∀ size, readServerPdu size = readHeader size >>= readBody) (hid : eventId < 2 ^ 16)
    (hbody : headerSize + body.length < 2 ^ 32) {r : Reader} (h : readBody eventId ⟨body, 6⟩ = .ok (pdu, r)) :
    decodeServerPdu (writePdu eventId body) = .ok pdu := by
  unfold decodeServerPdu
  rw [heq, Parse.bind_ok (readHeader_writePdu hid hbody), h]

/-- The optional field is there when anything is left. -/
theorem readScReady_ok {pdu : ScReady} (h : (ServerPdu.scReady pdu).Typed) :
    ∃ r, readScReady ⟨u32le pdu.protocolVersion ++ pdu.supportedFeatures.elim [] u32le, 6⟩ =
      .ok (pdu, r) ∧ r.rest = [] := by
  obtain ⟨hversion, hfeatures⟩ := h
  obtain ⟨version, features⟩ := pdu
  unfold readScReady
  rw [Parse.bind_ok (u32le_readsBack hversion _ _)]
  cases features with
  | none => exact ⟨_, rfl, rfl⟩
  | some features =>
    have hback := u32le_readsBack (hfeatures features rfl) [] (6 + 4)
    rw [append_nil] at hback
    refine ⟨⟨[], 14⟩, ?_, rfl⟩
    rw [Parse.bind_ok (a := false) rfl]
    have hsome : (Reader.u32le >>= fun a => pure (some a) : Parse (Option ℕ)) ⟨u32le features, 6 + 4⟩ =
        .ok (some features, ⟨[], 14⟩) := by
      rw [Parse.bind_ok hback]
      rfl
    exact Parse.bind_ok hsome

/-- **A server's PDU comes back.** -/
theorem decode_encodeServer {pdu : ServerPdu} (htyped : pdu.Typed) :
    decodeServerPdu (encodeServerPdu pdu) = .ok pdu ∧
      ∀ rest, framePdu (encodeServerPdu pdu ++ rest) (encodeServerPdu pdu).length =
        .ok (encodeServerPdu pdu).length := by
  cases pdu with
  | scReady pdu =>
    have hbody : headerSize + (u32le pdu.protocolVersion ++ pdu.supportedFeatures.elim [] u32le).length < 2 ^ 32 := by
      cases pdu.supportedFeatures <;> simp [headerSize]
    obtain ⟨⟨rest, o⟩, hread, hend⟩ := readScReady_ok htyped
    subst hend
    refine ⟨decodeServerPdu_writePdu (fun _ => rfl) (by norm_num) hbody (r := ⟨[], o⟩) ?_, framePdu_writePdu hbody⟩
    change (readScReady >>= fun pdu => _) _ = _
    rw [Parse.bind_ok hread]
    rfl
  | suspendInput | resumeInput =>
    have hbody : headerSize + ([] : List UInt8).length < 2 ^ 32 := by simp [headerSize]
    exact ⟨decodeServerPdu_writePdu (fun _ => rfl) (by norm_num) hbody rfl, framePdu_writePdu hbody⟩

/-! ### What was decoded can be encoded -/

theorem writeField_isSome {field : Option α} : (writeField write field).isSome ↔ ∀ a ∈ field, (write a).isSome := by
  cases field <;> simp [writeField]

variable {Q : α → Prop}

theorem readField_gives {fields flag : ℕ} {read : Parse α} (h : read.Gives Q) :
    (readField fields flag read).Gives fun field => ∀ a ∈ field, Q a := by
  unfold readField
  apply Gives.ite
  · intro _
    have hsome : (read >>= fun a => pure (some a)).Gives fun field => ∀ a ∈ field, Q a := by
      refine h.bind fun a ha => Gives.pure ?_
      intro b hb
      cases hb
      exact ha
    exact hsome
  · intro _
    exact Gives.pure (by simp)

theorem u8_gives : Reader.u8.Gives (· < 2 ^ 8) := readLe_gives 1

theorem readContactRect_gives : readContactRect.Gives fun rect => (writeContactRect rect).isSome := by
  refine twoByteSigned_format.gives.bind fun left hleft => ?_
  refine twoByteSigned_format.gives.bind fun top htop => ?_
  refine twoByteSigned_format.gives.bind fun right hright => ?_
  refine twoByteSigned_format.gives.bind fun bottom hbottom => ?_
  apply Gives.pure
  apply writeAll_isSome.mpr
  simp only [forall_mem_cons]
  exact ⟨hleft, htop, hright, hbottom, by simp⟩

theorem touchFlags_isSome (c : TouchContact) :
    (writeTwoByteUnsigned (present 0x0001 c.contactRect ||| present 0x0002 c.orientation |||
      present 0x0004 c.pressure)).isSome := by
  have hknown := (touch_flags c.contactRect.isSome c.orientation.isSome c.pressure.isSome).1
  apply (twoByteUnsigned_format.asserted _).mpr
  exact le_trans hknown (by decide)

theorem penFlags_isSome (c : PenContact) :
    (writeTwoByteUnsigned (present 0x0001 c.penFlags ||| present 0x0002 c.pressure ||| present 0x0004 c.rotation |||
      present 0x0008 c.tiltX ||| present 0x0010 c.tiltY)).isSome := by
  have hknown := (pen_flags c.penFlags.isSome c.pressure.isSome c.rotation.isSome c.tiltX.isSome c.tiltY.isSome).1
  apply (twoByteUnsigned_format.asserted _).mpr
  exact le_trans hknown (by decide)

theorem readTouchContact_gives : readTouchContact.Gives fun c => c.Typed ∧ (writeTouchContact c).isSome := by
  refine u8_gives.bind fun contactId hid => ?_
  refine next fun fields => ?_
  refine fourByteSigned_format.gives.bind fun x hx => ?_
  refine fourByteSigned_format.gives.bind fun y hy => ?_
  refine fourByteUnsigned_format.gives.bind fun contactFlags hflags => ?_
  refine (readField_gives readContactRect_gives).bind fun rect hrect => ?_
  refine (readField_gives fourByteUnsigned_format.gives).bind fun orientation horientation => ?_
  refine (readField_gives fourByteUnsigned_format.gives).bind fun pressure hpressure => ?_
  apply Gives.pure
  refine ⟨⟨hid⟩, writeAll_isSome.mpr ?_⟩
  simp only [forall_mem_cons, writeField_isSome]
  exact ⟨rfl, touchFlags_isSome ⟨contactId, x, y, contactFlags, rect, orientation, pressure⟩, hx, hy, hflags, hrect,
    horientation, hpressure, by simp⟩

theorem readPenContact_gives : readPenContact.Gives fun c => c.Typed ∧ (writePenContact c).isSome := by
  refine u8_gives.bind fun deviceId hid => ?_
  refine next fun fields => ?_
  refine fourByteSigned_format.gives.bind fun x hx => ?_
  refine fourByteSigned_format.gives.bind fun y hy => ?_
  refine fourByteUnsigned_format.gives.bind fun contactFlags hflags => ?_
  refine (readField_gives fourByteUnsigned_format.gives).bind fun penFlags hpen => ?_
  refine (readField_gives fourByteUnsigned_format.gives).bind fun pressure hpressure => ?_
  refine (readField_gives twoByteUnsigned_format.gives).bind fun rotation hrotation => ?_
  refine (readField_gives twoByteSigned_format.gives).bind fun tiltX htiltX => ?_
  refine (readField_gives twoByteSigned_format.gives).bind fun tiltY htiltY => ?_
  apply Gives.pure
  refine ⟨⟨hid⟩, writeAll_isSome.mpr ?_⟩
  simp only [forall_mem_cons, writeField_isSome]
  exact ⟨rfl, penFlags_isSome ⟨deviceId, x, y, contactFlags, penFlags, pressure, rotation, tiltX, tiltY⟩, hx, hy,
    hflags, hpen, hpressure, hrotation, htiltX, htiltY, by simp⟩

/-- An array that is read is within its limit, and its elements have what each that is read has. -/
theorem readArray_gives {readOne : Parse α} {count minSize : ℕ} {tooMany : String} (h : readOne.Gives Q) :
    (readArray readOne count limit minSize tooMany).Gives fun l => l.length ≤ limit ∧ ∀ a ∈ l, Q a := by
  refine next fun offset => next fun remaining => ?_
  refine Gives.ite (fun _ => Gives.fail _ _ _) fun hlimit => Gives.ite (fun _ => Gives.fail _ _ _) fun _ => ?_
  intro r l r' hr
  have hlen := readMany_gives readOne count r l r' hr
  exact ⟨by omega, Reader.forall_readMany h count hr⟩

theorem readFrame_gives {Typed : Contact → Prop} (hlimit : limit < 2 ^ 15)
    (h : readContact.Gives fun c => Typed c ∧ (writeContact c).isSome) :
    (readFrame readContact limit tooMany).Gives fun frame =>
      (∀ c ∈ frame.contacts, Typed c) ∧ (writeFrame limit writeContact frame).isSome := by
  refine next fun count => ?_
  refine eightByteUnsigned_format.gives.bind fun offset hoffset => ?_
  refine (readArray_gives h).bind fun contacts hcontacts => ?_
  obtain ⟨hlen, hall⟩ := hcontacts
  apply Gives.pure
  refine ⟨fun c hc => (hall c hc).1, ?_⟩
  have hcount : contacts.length % 2 ^ 16 ≤ maxTwoByteUnsigned := by
    unfold maxTwoByteUnsigned
    omega
  unfold writeFrame
  rw [asserts, if_pos hlen]
  apply writeAll_isSome.mpr
  simp only [forall_mem_cons]
  refine ⟨(twoByteUnsigned_format.asserted _).mpr hcount, hoffset, writeAll_isSome.mpr ?_, by simp⟩
  simp only [forall_mem_map]
  exact fun c hc => (hall c hc).2

theorem readEvent_gives {Typed : Contact → Prop} (hlimit : limit < 2 ^ 15)
    (h : readContact.Gives fun c => Typed c ∧ (writeContact c).isSome) :
    (readEvent (readFrame readContact limit tooMany)).Gives fun event =>
      event.Typed Typed ∧ (writeEvent event limit writeContact).isSome := by
  refine fourByteUnsigned_format.gives.bind fun time htime => ?_
  refine next fun count => ?_
  refine (readArray_gives (readFrame_gives tooMany hlimit h)).bind fun frames hframes => ?_
  obtain ⟨hlen, hall⟩ := hframes
  apply Gives.pure
  refine ⟨fun frame hf => (hall frame hf).1, ?_⟩
  have hcount : frames.length % 2 ^ 16 ≤ maxTwoByteUnsigned := by
    unfold maxFrames at hlen
    unfold maxTwoByteUnsigned
    omega
  unfold writeEvent
  rw [asserts, if_pos hlen]
  apply writeAll_isSome.mpr
  simp only [forall_mem_cons]
  refine ⟨htime, (twoByteUnsigned_format.asserted _).mpr hcount, writeAll_isSome.mpr ?_, by simp⟩
  simp only [forall_mem_map]
  exact fun frame hf => (hall frame hf).2

theorem finish_gives {make : α → ClientPdu} {body : Parse α} {what : String} {R : ClientPdu → Prop} (h : body.Gives Q)
    (hmake : ∀ a, Q a → R (make a)) : (finish make body what).Gives R :=
  h.bind fun a ha => next fun _ => Gives.pure (hmake a ha)

theorem readCsReady_gives : readCsReady.Gives fun pdu => (ClientPdu.csReady pdu).Typed := by
  refine (readLe_gives 4).bind fun flags hflags => ?_
  refine (readLe_gives 4).bind fun version hversion => ?_
  refine (readLe_gives 2).bind fun contacts hcontacts => ?_
  exact Gives.pure ⟨hflags, hversion, hcontacts⟩

theorem readClientPdu_gives (size : ℕ) :
    (readClientPdu size).Gives fun pdu => pdu.Typed ∧ (encodeClientPdu pdu).isSome := by
  have htouch := readEvent_gives "too many touch contacts in a frame" (show maxTouchContactsPerFrame < _ by decide)
    readTouchContact_gives
  have hpen := readEvent_gives "too many pen contacts in a frame" (show maxPenContactsPerFrame < _ by decide)
    readPenContact_gives
  refine next fun eventId => ?_
  split
  · exact finish_gives readCsReady_gives fun pdu h => ⟨h, rfl⟩
  · exact finish_gives htouch fun event h => ⟨h.1, by rw [encodeClientPdu, Option.isSome_map]; exact h.2⟩
  · exact finish_gives u8_gives fun contactId h => ⟨h, rfl⟩
  · exact finish_gives hpen fun event h => ⟨h.1, by rw [encodeClientPdu, Option.isSome_map]; exact h.2⟩
  · exact Gives.fail _ _ _

/-- What a client sent passes every assertion of its encoder. -/
theorem encodable_of_decode (h : decodeClientPdu bytes = .ok pdu) : pdu.Typed ∧ (encodeClientPdu pdu).isSome := by
  unfold decodeClientPdu at h
  rcases hr : readClientPdu bytes.length ⟨bytes, 0⟩ with e | ⟨read, r⟩
  · rw [hr] at h
    cases h
  · rw [hr] at h
    cases h
    exact readClientPdu_gives bytes.length _ _ _ hr

theorem readScReady_gives : readScReady.Gives fun pdu => (ServerPdu.scReady pdu).Typed := by
  refine (readLe_gives 4).bind fun version hversion => ?_
  refine next fun empty => ?_
  refine Gives.ite (fun _ => Gives.pure ⟨hversion, by simp⟩) fun _ => ?_
  have hsome : (Reader.u32le >>= fun a => pure (some a)).Gives fun features => ∀ f ∈ features, f < 2 ^ 32 :=
    (readLe_gives 4).bind fun a ha => Gives.pure (by simpa using ha)
  exact Gives.bind hsome fun features h => Gives.pure ⟨hversion, h⟩

theorem readServerPdu_gives (size : ℕ) : (readServerPdu size).Gives ServerPdu.Typed := by
  refine next fun eventId => ?_
  split
  · exact readScReady_gives.bind fun pdu h => next fun _ => Gives.pure h
  · exact next fun _ => Gives.pure trivial
  · exact next fun _ => Gives.pure trivial
  · exact Gives.fail _ _ _

theorem typed_of_decodeServer {pdu : ServerPdu} (h : decodeServerPdu bytes = .ok pdu) : pdu.Typed := by
  unfold decodeServerPdu at h
  rcases hr : readServerPdu bytes.length ⟨bytes, 0⟩ with e | ⟨read, r⟩
  · rw [hr] at h
    cases h
  · rw [hr] at h
    cases h
    exact readServerPdu_gives bytes.length _ _ _ hr

/-- **Input PDUs survive the wire**: an encoder that does not abort is undone by
the decoder and framed as a whole, the integers take the fewest bytes, and
whatever is decoded can be encoded. -/
theorem rdpei_roundTrip :
    (Format readTwoByteUnsigned writeTwoByteUnsigned (· ≤ maxTwoByteUnsigned) ∧
      Format readTwoByteSigned writeTwoByteSigned (fun v => -(maxTwoByteSigned : ℤ) ≤ v ∧ v ≤ maxTwoByteSigned) ∧
      Format readFourByteUnsigned writeFourByteUnsigned (· ≤ maxFourByteUnsigned) ∧
      Format readFourByteSigned writeFourByteSigned (fun v => -(maxFourByteSigned : ℤ) ≤ v ∧ v ≤ maxFourByteSigned) ∧
      Format readEightByteUnsigned writeEightByteUnsigned (· ≤ maxEightByteUnsigned)) ∧
    (∀ (pdu : ClientPdu) (bytes : List UInt8), pdu.Typed → encodeClientPdu pdu = some bytes →
      decodeClientPdu bytes = .ok pdu ∧ ∀ rest, framePdu (bytes ++ rest) bytes.length = .ok bytes.length) ∧
    (∀ pdu : ServerPdu, pdu.Typed → decodeServerPdu (encodeServerPdu pdu) = .ok pdu ∧
      ∀ rest, framePdu (encodeServerPdu pdu ++ rest) (encodeServerPdu pdu).length = .ok (encodeServerPdu pdu).length) ∧
    (∀ (bytes : List UInt8) (pdu : ClientPdu), decodeClientPdu bytes = .ok pdu →
      pdu.Typed ∧ (encodeClientPdu pdu).isSome) ∧
    ∀ (bytes : List UInt8) (pdu : ServerPdu), decodeServerPdu bytes = .ok pdu → pdu.Typed :=
  ⟨⟨twoByteUnsigned_format, twoByteSigned_format, fourByteUnsigned_format, fourByteSigned_format,
      eightByteUnsigned_format⟩,
    fun _ _ => decode_encodeClient, fun _ => decode_encodeServer, fun _ _ => encodable_of_decode,
    fun _ _ => typed_of_decodeServer⟩

/-- A pen left of the desktop, pressed and tilted. -/
def tiltedPen : ClientPdu :=
  .pen ⟨7, [⟨300, [⟨0, -5000, 40, 0x19, none, some 512, none, some (-64), some 63⟩]⟩]⟩

theorem rdpei_roundTrip_pen : ∃ bytes, encodeClientPdu tiltedPen = some bytes ∧ bytes.length = 23 ∧
    decodeClientPdu bytes = .ok tiltedPen := by
  have htyped : tiltedPen.Typed := by
    intro frame hf c hc
    rw [mem_singleton] at hf
    subst hf
    rw [mem_singleton] at hc
    subst hc
    exact ⟨by decide⟩
  have hsome : (encodeClientPdu tiltedPen).isSome := by decide
  obtain ⟨bytes, hb⟩ := Option.isSome_iff_exists.mp hsome
  have hlength : (encodeClientPdu tiltedPen).map List.length = some 23 := by decide
  rw [hb] at hlength
  exact ⟨bytes, hb, Option.some.inj hlength, (rdpei_roundTrip.2.1 tiltedPen bytes htyped hb).1⟩

end Rdpei
end Channels
end Farland
