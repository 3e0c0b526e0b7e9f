/-
# Clipboard messages on the wire

The bytes of the clipboard channel's messages and of the packed file list
(`channels/cliprdr.cpp`), with the fields the server has no use for. A message
is a header with the type, flags and length, and a body; whether a format list
carries long names or short ones depends on what both sides can do. Names
travel in UTF-16; a field of fixed size takes as many characters of one as fit.

Key theorem: `writeFixedUtf16_cut`.
-/
import Farland.Base.ReadBack
import Farland.Base.Unicode
import Farland.Channels.Cliprdr.Server

namespace Farland
namespace Channels
namespace Cliprdr
namespace Wire

open Reader List

/-! ### Constants -/

namespace MsgType

def monitorReady : ℕ := 0x0001
def formatList : ℕ := 0x0002
def formatListResponse : ℕ := 0x0003
def formatDataRequest : ℕ := 0x0004
def formatDataResponse : ℕ := 0x0005
def tempDirectory : ℕ := 0x0006
def clipCaps : ℕ := 0x0007
def fileContentsRequest : ℕ := 0x0008
def fileContentsResponse : ℕ := 0x0009
def lockClipdata : ℕ := 0x000A
def unlockClipdata : ℕ := 0x000B

end MsgType

namespace MsgFlag

def responseOk : ℕ := 0x0001
def responseFail : ℕ := 0x0002
def asciiNames : ℕ := 0x0004

end MsgFlag

/-- CB_CAPSTYPE_GENERAL. -/
def capstypeGeneral : ℕ := 0x0001
/-- CB_CAPS_VERSION_2. -/
def capsVersion2 : ℕ := 2
/-- Capability sets a client may send. -/
def maxCapabilitySets : ℕ := 16
/-- Formats of one list. -/
def maxFormats : ℕ := 256
/-- Characters of a long name, without the terminator. -/
def maxFormatNameLength : ℕ := 256
/-- 15 UTF-16 characters, or 31 ASCII ones. -/
def shortNameSize : ℕ := 32
/-- An id and a short name. -/
def shortFormatSize : ℕ := 4 + shortNameSize
/-- CLIPRDR_GENERAL_CAPABILITY. -/
def generalCapabilitySize : ℕ := 12

/-! ### Messages -/

/-- Sets of other types are skipped; without a general one there are no flags. -/
structure Capabilities where
  version : Option ℕ := none
  generalFlags : Option ℕ := none
  deriving DecidableEq

/-- CLIPRDR_FILECONTENTS_REQUEST, for the size or a range. -/
structure FileContentsRequest where
  streamId : ℕ := 0
  index : ℤ := 0
  flags : ℕ := fileContentsRange
  position : ℕ := 0
  requested : ℕ := 0
  clipDataId : Option ℕ := none
  deriving DecidableEq

/-- The messages of both directions. -/
inductive Pdu where
  | capabilities (caps : Capabilities)
  | monitorReady
  | tempDirectory (path : Text)
  | formatList (formats : List Format)
  | formatListResponse (ok : Bool)
  | lockClipData (clipDataId : ℕ)
  | unlockClipData (clipDataId : ℕ)
  | formatDataRequest (formatId : ℕ)
  | formatDataResponse (ok : Bool) (data : Bytes)
  | fileContentsRequest (request : FileContentsRequest)
  | fileContentsResponse (ok : Bool) (streamId : ℕ) (data : Bytes)
  deriving DecidableEq

/-! ### Decoding -/

/-- ASCII names up to the first NUL; bytes above 0x7F are taken as Latin-1. -/
def latin1ToUtf8 (bytes : Bytes) : Text :=
  (bytes.takeWhile (· != 0)).flatMap fun c =>
    if c < 0x80 then [c] else [UInt8.ofNat (0xC0 ||| c.toNat >>> 6), UInt8.ofNat (0x80 ||| c.toNat &&& 0x3F)]

/-- Exactly one of CB_RESPONSE_OK and CB_RESPONSE_FAIL. -/
def responseFlag (flags : ℕ) : Parse Bool :=
  if (flags &&& MsgFlag.responseOk != 0) == (flags &&& MsgFlag.responseFail != 0) then
    Parse.fail .invalidValue "clipboard response without exactly one of CB_RESPONSE_OK and FAIL" 2
  else pure (flags &&& MsgFlag.responseOk != 0)

/-- A second general set is refused. -/
def readCapabilitySet (caps : Capabilities) : Parse Capabilities := do
  let start ← at_
  let type ← u16le
  let length ← u16le
  if length < 4 then
    Parse.fail .invalidLength "clipboard capability set shorter than its header" (start + 2)
  else
    let set ← sub (length - 4)
    if type ≠ capstypeGeneral then pure caps
    else if caps.generalFlags.isSome then
      Parse.fail .invalidValue "second clipboard general capability set" start
    else if length < generalCapabilitySize then
      Parse.fail .invalidLength "clipboard general capability set too short" (start + 2)
    else
      Parse.on set do
        let version ← u32le
        let generalFlags ← u32le
        pure ⟨some version, some generalFlags⟩

/-- All sets of the count. -/
def readCapabilitySets : ℕ → Capabilities → Parse Capabilities
  | 0, caps => pure caps
  | count + 1, caps => do
    let caps ← readCapabilitySet caps
    readCapabilitySets count caps

/-- CLIPRDR_CAPS. -/
def decodeCapabilities : Parse Capabilities := do
  let count ← u16le
  skip 2
  let offset ← at_
  if count > maxCapabilitySets then Parse.fail .limitExceeded "too many clipboard capability sets" (offset - 4)
  else
    let caps ← readCapabilitySets count {}
    expectEnd "clipboard capabilities"
    pure caps

/-- How many units stand in front of the terminator, when `room` may. -/
def nameLength (offset : ℕ) : ℕ → Bytes → Result ℕ
  | room, low :: high :: rest =>
    if low = 0 ∧ high = 0 then .ok 0
    else
      match room with
      | 0 => fail .limitExceeded "clipboard format name too long" offset
      | room + 1 => (nameLength offset room rest).map (· + 1)
  | _, _ => fail .truncated "clipboard format name without a terminator" offset

/-- A name and its terminator. -/
def readLongName : Parse Text := fun r =>
  match nameLength r.offset maxFormatNameLength r.rest with
  | .error e => .error e
  | .ok units => (do
    let name ← bytes (2 * units)
    skip 2
    pure (utf16leToUtf8 name) : Parse Text) r

/-- As many formats as there are, up to `room`. -/
def decodeLongNames : ℕ → Parse (List Format)
  | 0 => fun r =>
    if r.empty then .ok ([], r) else fail .limitExceeded "too many clipboard formats" r.offset
  | room + 1 => fun r =>
    if r.empty then .ok ([], r)
    else (do
      let id ← u32le
      let name ← readLongName
      let formats ← decodeLongNames room
      pure (⟨id, name⟩ :: formats) : Parse (List Format)) r

/-- An id and 32 bytes of name. -/
def readShortName (ascii : Bool) : Parse Format := do
  let id ← u32le
  let name ← bytes shortNameSize
  pure ⟨id, if ascii then latin1ToUtf8 name else utf16leToUtf8 name⟩

/-- The list must be whole. -/
def decodeShortNames (ascii : Bool) : Parse (List Format) := fun r =>
  if r.remaining % shortFormatSize ≠ 0 then
    fail .invalidLength "short clipboard format names do not fill the format list" r.offset
  else if r.remaining / shortFormatSize > maxFormats then
    fail .limitExceeded "too many clipboard formats" r.offset
  else readMany (readShortName ascii) (r.remaining / shortFormatSize) r

/-- The clipDataId, when there is one. -/
def readClipDataId : Parse (Option ℕ) := do
  let last ← atEnd
  if last then pure none
  else
    let clipDataId ← u32le
    pure (some clipDataId)

/-- Exactly one of size and range. -/
def decodeFileContentsRequest : Parse FileContentsRequest := do
  let start ← at_
  let remaining ← left
  if remaining ≠ 24 ∧ remaining ≠ 28 then
    Parse.fail .invalidLength "file contents request of the wrong size" start
  else
    let streamId ← u32le
    let index ← u32le
    let flags ← u32le
    let low ← u32le
    let high ← u32le
    let position := high <<< 32 ||| low
    let requested ← u32le
    let clipDataId ← readClipDataId
    if flags ≠ fileContentsSize ∧ flags ≠ fileContentsRange then
      Parse.fail .invalidValue "file contents request must ask for either the size or a range" (start + 8)
    else if flags = fileContentsSize ∧ (requested ≠ 8 ∨ position ≠ 0) then
      Parse.fail .invalidValue "file size request must ask for 8 bytes at position 0" (start + 12)
    else pure ⟨streamId, toSigned 32 index, flags, position, requested, clipDataId⟩

/-- A body that is one integer. -/
def fourBytes (what : String) : Parse ℕ := fun r =>
  if r.remaining ≠ 4 then fail .invalidLength what r.offset else u32le r

/-- All that is left. -/
def restOf : Parse Bytes := fun r => .ok (r.rest, r)

/-- By the type. A failed response carries no data. -/
def decodeBody (type flags : ℕ) (longNames : Bool) : Parse Pdu :=
  if type = MsgType.monitorReady then do
    expectEnd "monitor ready"
    pure .monitorReady
  else if type = MsgType.clipCaps then do
    let caps ← decodeCapabilities
    pure (.capabilities caps)
  else if type = MsgType.tempDirectory then do
    let remaining ← left
    let offset ← at_
    if remaining ≠ pathFieldSize then
      Parse.fail .invalidLength "temporary directory PDU of the wrong size" offset
    else
      let path ← bytes pathFieldSize
      pure (.tempDirectory (utf16leToUtf8 path))
  else if type = MsgType.formatList then do
    let formats ← if longNames then decodeLongNames maxFormats
      else decodeShortNames (flags &&& MsgFlag.asciiNames != 0)
    pure (.formatList formats)
  else if type = MsgType.formatListResponse then do
    let ok ← responseFlag flags
    expectEnd "format list response"
    pure (.formatListResponse ok)
  else if type = MsgType.lockClipdata then do
    let id ← fourBytes "lock clipboard data PDU of the wrong size"
    pure (.lockClipData id)
  else if type = MsgType.unlockClipdata then do
    let id ← fourBytes "unlock clipboard data PDU of the wrong size"
    pure (.unlockClipData id)
  else if type = MsgType.formatDataRequest then do
    let id ← fourBytes "format data request of the wrong size"
    pure (.formatDataRequest id)
  else if type = MsgType.formatDataResponse then do
    let ok ← responseFlag flags
    if ok then
      let data ← restOf
      pure (.formatDataResponse ok data)
    else pure (.formatDataResponse ok [])
  else if type = MsgType.fileContentsRequest then do
    let request ← decodeFileContentsRequest
    pure (.fileContentsRequest request)
  else if type = MsgType.fileContentsResponse then do
    let ok ← responseFlag flags
    let last ← atEnd
    if !ok && last then pure (.fileContentsResponse ok 0 [])
    else
      let streamId ← u32le
      if ok then
        let data ← restOf
        pure (.fileContentsResponse ok streamId data)
      else pure (.fileContentsResponse ok streamId [])
  else Parse.fail .unsupported "unknown clipboard PDU type" 0

/-- One channel message. Some servers append four bytes that the length leaves out. -/
def decode (message : Bytes) (longNames : Bool) : Result Pdu :=
  ((do
    let type ← u16le
    let flags ← u16le
    let dataLength ← u32le
    let remaining ← left
    if dataLength ≠ remaining ∧ (remaining < 4 ∨ dataLength ≠ remaining - 4) then
      Parse.fail .invalidLength "clipboard PDU length disagrees with the channel message" 4
    else
      let body ← sub dataLength
      Parse.on body (decodeBody type flags longNames) : Parse Pdu) ⟨message, 0⟩).map Prod.fst

/-! ### Encoding -/

/-- `content` in a field of `size` bytes that is filled up with zeros: cut so
that a terminator fits and no surrogate pair is split. -/
def writeFixedUtf16 (content : Text) (size : ℕ) : Bytes :=
  let units := utf8ToUtf16le content
  let length := min units.length (size - 2) / 2 * 2
  let last := (units.getD (length - 2) 0).toNat ||| (units.getD (length - 1) 0).toNat <<< 8
  let length := if length ≥ 2 ∧ length < units.length ∧ isHighSurrogate last then length - 2 else length
  units.take length ++ Writer.zeros (size - length)

/-- CB_RESPONSE_OK or CB_RESPONSE_FAIL. -/
def responseFlags (ok : Bool) : ℕ := if ok then MsgFlag.responseOk else MsgFlag.responseFail

/-- The general set, if there are flags. -/
def encodeCapabilities (caps : Capabilities) : Bytes :=
  match caps.generalFlags with
  | none => Writer.u16le 0 ++ Writer.u16le 0
  | some generalFlags =>
    Writer.u16le 1 ++ Writer.u16le 0 ++ Writer.u16le capstypeGeneral ++ Writer.u16le generalCapabilitySize ++
      Writer.u32le (caps.version.getD capsVersion2) ++ Writer.u32le generalFlags

/-- With a terminated long name or a short one. -/
def encodeFormat (longNames : Bool) (format : Format) : Bytes :=
  Writer.u32le format.id ++
    if longNames then utf8ToUtf16le format.name ++ Writer.u16le 0 else writeFixedUtf16 format.name shortNameSize

/-- The optional end of a request. -/
def clipDataIdBytes : Option ℕ → Bytes
  | none => []
  | some clipDataId => Writer.u32le clipDataId

/-- Position low and high. -/
def encodeFileContentsRequest (request : FileContentsRequest) : Bytes :=
  Writer.u32le request.streamId ++ Writer.u32le (toUnsigned 32 request.index) ++ Writer.u32le request.flags ++
    Writer.u32le (request.position % 2 ^ 32) ++ Writer.u32le (request.position >>> 32) ++
    Writer.u32le request.requested ++ clipDataIdBytes request.clipDataId

/-- The flags of a message's header. -/
def flagsOf : Pdu → ℕ
  | .formatListResponse ok => responseFlags ok
  | .formatDataResponse ok _ => responseFlags ok
  | .fileContentsResponse ok _ _ => responseFlags ok
  | _ => 0

/-- What follows the header. -/
def encodeBody (longNames : Bool) : Pdu → Bytes
  | .capabilities caps => encodeCapabilities caps
  | .monitorReady => []
  | .tempDirectory path => writeFixedUtf16 path pathFieldSize
  | .formatList formats => formats.flatMap (encodeFormat longNames)
  | .formatListResponse _ => []
  | .lockClipData clipDataId => Writer.u32le clipDataId
  | .unlockClipData clipDataId => Writer.u32le clipDataId
  | .formatDataRequest formatId => Writer.u32le formatId
  | .formatDataResponse ok data => if ok then data else []
  | .fileContentsRequest request => encodeFileContentsRequest request
  | .fileContentsResponse ok streamId data => Writer.u32le streamId ++ if ok then data else []

/-- msgType. -/
def typeOf : Pdu → ℕ
  | .capabilities _ => MsgType.clipCaps
  | .monitorReady => MsgType.monitorReady
  | .tempDirectory _ => MsgType.tempDirectory
  | .formatList _ => MsgType.formatList
  | .formatListResponse _ => MsgType.formatListResponse
  | .lockClipData _ => MsgType.lockClipdata
  | .unlockClipData _ => MsgType.unlockClipdata
  | .formatDataRequest _ => MsgType.formatDataRequest
  | .formatDataResponse .. => MsgType.formatDataResponse
  | .fileContentsRequest _ => MsgType.fileContentsRequest
  | .fileContentsResponse .. => MsgType.fileContentsResponse

/-- A header and a body. -/
def message (type flags : ℕ) (body : Bytes) : Bytes :=
  Writer.u16le type ++ Writer.u16le flags ++ Writer.u32le body.length ++ body

/-- `none` when the length does not fit its field. -/
def encode (pdu : Pdu) (longNames : Bool) : Option Bytes :=
  let body := encodeBody longNames pdu
  if body.length ≤ 4294967295 then some (message (typeOf pdu) (flagsOf pdu) body) else none

/-- CLIPRDR_FILEDESCRIPTOR. -/
def encodeFileDescriptor (file : FileDescriptor) : Bytes :=
  Writer.u32le file.flags ++ Writer.zeros 32 ++ Writer.u32le file.attributes ++ Writer.zeros 16 ++
    Writer.u64le file.lastWriteTime ++ Writer.u32le (file.size >>> 32) ++ Writer.u32le (file.size % 2 ^ 32) ++
    writeFixedUtf16 file.name pathFieldSize

/-- `none` when the number of files does not fit its field. -/
def encodeFileList (files : List FileDescriptor) : Option Bytes :=
  if files.length ≤ 4294967295 then some (Writer.u32le files.length ++ files.flatMap encodeFileDescriptor) else none

/-! ### Names in fields of fixed size -/

/-- The characters from the front that fit `room` units. -/
def takeUnits : ℕ → List Char → List Char
  | _, [] => []
  | room, c :: cs => if (unitsOf c.toNat).length ≤ room then c :: takeUnits (room - (unitsOf c.toNat).length) cs else []

/-- `ds` is the longest prefix of `cs` that fits `room` units. -/
structure Longest (room : ℕ) (cs ds : List Char) : Prop where
  isPrefix : ds <+: cs
  fits : (units ds).length ≤ room
  longest : ∀ es, es <+: cs → (units es).length ≤ room → es <+: ds

theorem units_cons (c : Char) (cs : List Char) : units (c :: cs) = unitsOf c.toNat ++ units cs := flatMap_cons

theorem takeUnits_longest (room : ℕ) (cs : List Char) : Longest room cs (takeUnits room cs) := by
  induction cs generalizing room with
  | nil => exact ⟨prefix_rfl, Nat.zero_le _, fun es hes _ => hes⟩
  | cons c cs ih =>
    unfold takeUnits
    by_cases hfits : (unitsOf c.toNat).length ≤ room
    · obtain ⟨hstart, hle, hlongest⟩ := ih (room - (unitsOf c.toNat).length)
      rw [if_pos hfits]
      refine ⟨(cons_prefix_cons).mpr ⟨rfl, hstart⟩, ?_, fun es hes hroom => ?_⟩
      · rw [units_cons, length_append]
        omega
      · cases es with
        | nil => exact nil_prefix
        | cons e es =>
          obtain ⟨rfl, htail⟩ := cons_prefix_cons.mp hes
          rw [units_cons, length_append] at hroom
          exact cons_prefix_cons.mpr ⟨rfl, hlongest es htail (by omega)⟩
    · rw [if_neg hfits]
      refine ⟨ nil_prefix, Nat.zero_le _, fun es hes hroom => ?_⟩
      cases es with
      | nil => exact nil_prefix
      | cons e es =>
        obtain ⟨rfl, -⟩ := cons_prefix_cons.mp hes
        rw [units_cons, length_append] at hroom
        omega

theorem takeUnits_all {room : ℕ} {cs : List Char} (h : (units cs).length ≤ room) : takeUnits room cs = cs := by
  have hlongest := takeUnits_longest room cs
  exact hlongest.isPrefix.eq_of_length_le (hlongest.longest cs prefix_rfl h).length_le

/-- What is kept of the units: as many as fit, without half a pair. -/
def cutUnits (room : ℕ) (us : List ℕ) : List ℕ :=
  if room < us.length ∧ 1 ≤ room ∧ isHighSurrogate (us.getD (room - 1) 0) = true then us.take (room - 1)
  else us.take room

/-- The first unit is kept when another one may be. -/
theorem cutUnits_cons (room u : ℕ) (us : List ℕ) : cutUnits (room + 2) (u :: us) = u :: cutUnits (room + 1) us := by
  unfold cutUnits
  by_cases hcut : room + 1 < us.length ∧ 1 ≤ room + 1 ∧ isHighSurrogate (us.getD (room + 1 - 1) 0) = true
  · rw [if_pos hcut, if_pos ⟨Nat.succ_lt_succ hcut.1, by omega, hcut.2.2⟩]
    rfl
  · rw [if_neg hcut, if_neg]
    · rfl
    · rintro ⟨hlong, -, hhigh⟩
      exact hcut ⟨Nat.lt_of_succ_lt_succ hlong, by omega, hhigh⟩

theorem unitsOf_cases (c : Char) : (∃ u, unitsOf c.toNat = [u] ∧ isHighSurrogate u = false) ∨
    ∃ high low, unitsOf c.toNat = [high, low] ∧ isHighSurrogate high = true ∧ isHighSurrogate low = false := by
  have hscalar := scalar c
  unfold unitsOf
  by_cases hpair : c.toNat ≥ 0x10000
  · rw [if_pos hpair]
    refine Or.inr ⟨_, _, rfl, ?_, ?_⟩
    · simp only [isHighSurrogate, Bool.and_eq_true, decide_eq_true_eq]
      omega
    · simp only [isHighSurrogate, Bool.and_eq_false_iff, decide_eq_false_iff_not]
      omega
  · rw [if_neg hpair]
    exact Or.inl ⟨_, rfl, (not_surrogate c).1⟩

/-- Cutting the units cuts whole characters. -/
theorem cutUnits_units (room : ℕ) (cs : List Char) : cutUnits room (units cs) = units (takeUnits room cs) := by
  induction cs generalizing room with
  | nil =>
    unfold cutUnits units takeUnits
    simp
  | cons c cs ih =>
    rw [units_cons]
    unfold takeUnits
    rcases unitsOf_cases c with ⟨u, hu, hlow⟩ | ⟨high, low, hpair, hhigh, hlow⟩
    · rw [hu]
      cases room with
      | zero => rfl
      | succ room =>
        rw [if_pos (by simp), units_cons, hu]
        rw [← ih]
        cases room with
        | zero => simp [cutUnits, hlow]
        | succ room => exact cutUnits_cons room u (units cs)
    · rw [hpair]
      cases room with
      | zero => rfl
      | succ room =>
        cases room with
        | zero =>
          unfold cutUnits
          simp [hhigh, units]
        | succ room =>
          rw [if_pos (by simp), units_cons, hpair]
          rw [← ih]
          cases room with
          | zero => simp [cutUnits, hlow]
          | succ room =>
            have hhead := cutUnits_cons (room + 1) high (low :: units cs)
            rw [cutUnits_cons room low] at hhead
            exact hhead

theorem flatMap_unit_length (us : List ℕ) : (us.flatMap utf16leUnit).length = 2 * us.length := by
  induction us with
  | nil => rfl
  | cons u us ih =>
    rw [flatMap_cons, length_append]
    simp only [utf16leUnit, length_cons, length_nil]
    omega

theorem take_flatMap_unit (us : List ℕ) : ∀ k,
    (us.flatMap utf16leUnit).take (2 * k) = (us.take k).flatMap utf16leUnit := by
  induction us with
  | nil =>
    intro k
    simp
  | cons u us ih =>
    intro k
    cases k with
    | zero => rfl
    | succ k =>
      have hroom : 2 * (k + 1) = (utf16leUnit u).length + 2 * k := by
        rw [show (utf16leUnit u).length = 2 from rfl]
        omega
      rw [flatMap_cons, take_succ_cons, flatMap_cons, ← ih k, hroom, take_length_add_append]

/-- The unit at `k`, put together from its bytes. -/
theorem getD_flatMap_unit (us : List ℕ) (h : ∀ u ∈ us, u < 0x10000) : ∀ k,
    ((us.flatMap utf16leUnit).getD (2 * k) 0).toNat |||
      ((us.flatMap utf16leUnit).getD (2 * k + 1) 0).toNat <<< 8 = us.getD k 0 := by
  induction us with
  | nil =>
    intro k
    simp
  | cons u us ih =>
    intro k
    obtain ⟨hu, hus⟩ := forall_mem_cons.mp h
    cases k with
    | zero =>
      have hunits := utf16Units_cons hu []
      exact (List.cons.inj hunits).1
    | succ k =>
      exact ih hus k

/-- **A field of fixed size** holds the longest prefix of whole characters that
fits, and zeros behind it. -/
theorem writeFixedUtf16_cut (cs : List Char) {room size : ℕ} (hsize : size = 2 * room + 2) :
    writeFixedUtf16 (utf8 cs) size =
      utf16 (takeUnits room cs) ++ Writer.zeros (size - 2 * (units (takeUnits room cs)).length) := by
  have hhalf : (size - 2) = 2 * room := by omega
  unfold writeFixedUtf16
  simp only [utf8ToUtf16le_utf8]
  rw [utf16_eq cs, utf16_eq (takeUnits room cs), ← cutUnits_units, flatMap_unit_length, hhalf]
  have hus := units_lt cs
  generalize units cs = us at *
  unfold cutUnits
  by_cases hlong : room < us.length
  · have hmin : min (2 * us.length) (2 * room) / 2 * 2 = 2 * room := by omega
    rw [hmin]
    cases room with
    | zero => simp
    | succ room =>
      have hlast := getD_flatMap_unit us hus room
      rw [show 2 * (room + 1) - 2 = 2 * room by omega, show 2 * (room + 1) - 1 = 2 * room + 1 by omega, hlast]
      by_cases hhigh : isHighSurrogate (us.getD room 0) = true
      · rw [if_pos ⟨by omega, by omega, hhigh⟩, if_pos ⟨hlong, by omega, by simpa using hhigh⟩, Nat.add_sub_cancel,
          take_flatMap_unit, length_take, min_eq_left (by omega)]
      · rw [if_neg (fun h => hhigh h.2.2), if_neg (fun h => hhigh (by simpa using h.2.2)), take_flatMap_unit,
          length_take, min_eq_left (by omega)]
  · have hmin : min (2 * us.length) (2 * room) / 2 * 2 = 2 * us.length := by omega
    rw [hmin, if_neg (by omega), if_neg (by omega), take_flatMap_unit, take_of_length_le (not_lt.mp hlong),
      take_of_length_le le_rfl]

end Wire
end Cliprdr
end Channels
end Farland
