/-
# Fast-path output

Server-to-client updates without the TPKT, X.224 and MCS headers
(`proto/fastpath.cpp`). An update larger than a fragment is cut into PDUs of
one fragment each, the first, the next ones and the last; a reassembler puts
them together again. `Carries bytes fragments` says that the bytes, split by
their length fields, are PDUs of one fragment each, and `Complete` that a
sequence of fragments makes one update.

An error leaves the reassembler as it was, so an update that was half
assembled then stays so and nothing but its own fragments is taken any more.

Key theorems: `encodeUpdate_carries`, `intact_of_complete`,
`update_reassembly`.
-/
import Farland.Proto.X224

namespace Farland
namespace Proto
namespace Fastpath

open Reader Parse List

inductive Fragmentation where
  | single
  | last
  | first
  | next
  deriving DecidableEq

def Fragmentation.bits : Fragmentation → ℕ
  | .single => 0
  | .last => 1
  | .first => 2
  | .next => 3

def Fragmentation.ofBits : ℕ → Fragmentation
  | 0 => .single
  | 1 => .last
  | 2 => .first
  | _ => .next

def actionFastpath : ℕ := 0
def flagSecureChecksum : ℕ := 0x1
def flagEncrypted : ℕ := 0x2
def compressionUsed : ℕ := 0x2
def packetCompressed : ℕ := 0x20

/-- Header and two-byte length, updateHeader and size. -/
def pduOverhead : ℕ := 3 + 3

/-! ### Encoding -/

/-- Always the two-octet length form. -/
def writePdu (code : ℕ) (fragmentation : Fragmentation) (chunk : List UInt8) : Option (List UInt8) := do
  let length := pduOverhead + chunk.length
  asserts (length ≤ 0x7FFF)
  pure (Writer.u8 actionFastpath ++ Writer.u16be (0x8000 ||| length) ++
    Writer.u8 (code ||| fragmentation.bits <<< 4) ++ Writer.u16le chunk.length ++ chunk)

/-- The loop of `encode_update`, from `offset` on; each round is at least a byte. -/
def writeFragments (code : ℕ) (data : List UInt8) (maxFragment : ℕ) : ℕ → ℕ → Option (List UInt8)
  | 0, _ => some []
  | fuel + 1, offset =>
    if offset < data.length then do
      let size := min maxFragment (data.length - offset)
      let fragmentation : Fragmentation :=
        if offset = 0 then .first else if offset + size = data.length then .last else .next
      let pdu ← writePdu code fragmentation ((data.drop offset).take size)
      let pdus ← writeFragments code data maxFragment fuel (offset + maxFragment)
      pure (pdu ++ pdus)
    else some []

def encodeUpdate (code : ℕ) (data : List UInt8) (maxFragment : ℕ) : Option (List UInt8) := do
  asserts (code ≤ 0x0F ∧ 0 < maxFragment ∧ maxFragment ≤ 0x7FFF - pduOverhead)
  if data.length ≤ maxFragment then writePdu code .single data
  else writeFragments code data maxFragment data.length 0

/-! ### Decoding -/

/-- One TS_FP_UPDATE as it appears in a PDU. -/
structure UpdateFragment where
  code : ℕ
  fragmentation : Fragmentation
  data : List UInt8
  deriving DecidableEq

def readUpdate : Parse UpdateFragment := do
  let updateStart ← at_
  let updateHeader ← u8
  if updateHeader >>> 6 &&& compressionUsed ≠ 0 then
    let compressionFlags ← u8
    if compressionFlags &&& packetCompressed ≠ 0 then
      Parse.fail .unsupported "bulk-compressed fast-path update" updateStart
  let size ← u16le
  let data ← bytes size
  pure ⟨updateHeader &&& 0x0F, .ofBits (updateHeader >>> 4 &&& 0x03), data⟩

/-- Updates up to the end of the PDU, with fuel for one a byte. -/
def readUpdates : ℕ → Parse (List UpdateFragment)
  | 0 => pure []
  | fuel + 1 => do
    let empty ← atEnd
    if empty then pure []
    else
      let fragment ← readUpdate
      let fragments ← readUpdates fuel
      pure (fragment :: fragments)

def readOutputPdu (size : ℕ) : Parse (List UpdateFragment) := do
  let start ← at_
  let header ← u8
  if header &&& 0x03 ≠ actionFastpath then Parse.fail .invalidValue "not a fast-path PDU" start
  else if header >>> 6 &&& (flagEncrypted ||| flagSecureChecksum) ≠ 0 then
    Parse.fail .invalidValue "RDP-encrypted fast-path output under Enhanced RDP Security" start
  else do
    let length1 ← u8
    let length ← if length1 &&& 0x80 ≠ 0 then do
        let length2 ← u8
        pure ((length1 &&& 0x7F) <<< 8 ||| length2)
      else pure length1
    if length ≠ size then Parse.fail .invalidLength "fast-path length does not match the PDU" (start + 1)
    else readUpdates size

/-- The updates of a complete PDU that starts at `start` of the stream. -/
def decodeOutputPdu (pdu : List UInt8) (start : ℕ) : Result (List UpdateFragment) :=
  match readOutputPdu pdu.length ⟨pdu, start⟩ with
  | .ok (updates, _) => .ok updates
  | .error e => .error e

/-! ### Reassembly -/

structure Update where
  code : ℕ
  data : List UInt8
  deriving DecidableEq

structure Reassembler where
  maxSize : ℕ
  /-- Of the update that is half assembled. -/
  code : Option ℕ := none
  buffer : List UInt8 := []
  deriving DecidableEq

variable {code length : ℕ} {fragment : UpdateFragment} {s : Reassembler}

namespace Reassembler

def tooLarge (s : Reassembler) (extra : ℕ) : Prop := s.maxSize < s.buffer.length + extra

instance (s : Reassembler) (extra : ℕ) : Decidable (s.tooLarge extra) := inferInstanceAs (Decidable (_ < _))

/-- A complete update once its last fragment arrives. -/
def add (s : Reassembler) (fragment : UpdateFragment) : Result (Option Update) × Reassembler :=
  match fragment.fragmentation with
  | .single =>
    if s.code.isSome ∨ s.maxSize < fragment.data.length then
      (fail .invalidValue "unexpected single fast-path update" 0, s)
    else (.ok (some ⟨fragment.code, fragment.data⟩), s)
  | .first =>
    if s.code.isSome ∨ s.maxSize < fragment.data.length then
      (fail .invalidValue "unexpected first fast-path fragment" 0, s)
    else (.ok none, { s with code := some fragment.code, buffer := fragment.data })
  | .next =>
    if s.code ≠ some fragment.code then (fail .invalidValue "fast-path fragment without a first fragment" 0, s)
    else if s.tooLarge fragment.data.length then
      (fail .limitExceeded "reassembled fast-path update too large" 0, s)
    else (.ok none, { s with buffer := s.buffer ++ fragment.data })
  | .last =>
    if s.code ≠ some fragment.code then (fail .invalidValue "fast-path fragment without a first fragment" 0, s)
    else if s.tooLarge fragment.data.length then
      (fail .limitExceeded "reassembled fast-path update too large" 0, s)
    else (.ok (some ⟨fragment.code, s.buffer ++ fragment.data⟩), { s with code := none, buffer := [] })

/-- What each of several fragments returned, and what is left. -/
def addAll (s : Reassembler) : List UpdateFragment → List (Result (Option Update)) × Reassembler
  | [] => ([], s)
  | fragment :: fragments =>
    let (result, s) := s.add fragment
    let (results, s) := s.addAll fragments
    (result :: results, s)

end Reassembler

/-! ### What they say to each other -/

/-- Split by their length fields, the bytes are PDUs of one fragment each. -/
inductive Carries : List UInt8 → List UpdateFragment → Prop
  | nil : Carries [] []
  | cons {bytes : List UInt8} {size : ℕ} {fragment : UpdateFragment} {fragments : List UpdateFragment}
      (hframe : peekFrame bytes = .ok (some ⟨.fastpath, size⟩)) (hsize : size ≤ bytes.length)
      (hpdu : ∀ start, decodeOutputPdu (bytes.take size) start = .ok [fragment])
      (hrest : Carries (bytes.drop size) fragments) : Carries bytes (fragment :: fragments)

/-- One update: a single fragment, or a first one, any next ones and a last one. -/
inductive Complete : List UpdateFragment → Update → Prop
  | single (code : ℕ) (data : List UInt8) : Complete [⟨code, .single, data⟩] ⟨code, data⟩
  | fragmented (code : ℕ) (first : List UInt8) (nexts : List (List UInt8)) (last : List UInt8) :
      Complete (⟨code, .first, first⟩ :: nexts.map (⟨code, .next, ·⟩) ++ [⟨code, .last, last⟩])
        ⟨code, first ++ nexts.flatten ++ last⟩

/-- Nothing until the last fragment, then the update. -/
def Reassembler.Intact (s : Reassembler) (fragments : List UpdateFragment) (update : Update) : Prop :=
  (s.addAll fragments).1 = List.replicate (fragments.length - 1) (.ok none) ++ [.ok (some update)]

/-! ### One PDU -/

theorem writePdu_some (code : ℕ) (fragmentation : Fragmentation) {chunk : List UInt8}
    (h : chunk.length ≤ 0x7FFF - pduOverhead) : ∃ pdu, writePdu code fragmentation chunk = some pdu := by
  have hlen : pduOverhead + chunk.length ≤ 0x7FFF := by
    unfold pduOverhead at h ⊢
    omega
  exact ⟨_, by rw [writePdu, asserts, if_pos hlen]; rfl⟩

/-- The two octets of a length, and the two of a size. -/
theorem u16be_length (h : length ≤ 0x7FFF) :
    Writer.u16be (0x8000 ||| length) = Writer.u8 (0x80 + length / 256) ++ Writer.u8 (length % 256) := by
  have hor : 0x8000 ||| length = 0x8000 + length := by
    have hadd := Nat.shiftLeft_add_eq_or_of_lt (show length < 2 ^ 15 by omega) 1
    exact hadd.symm
  have hlow : UInt8.ofNat (0x8000 + length) = UInt8.ofNat (length % 256) := by
    refine UInt8.toNat_inj.mp ?_
    rw [UInt8.toNat_ofNat', UInt8.toNat_ofNat']
    omega
  have hhigh : (0x8000 + length) >>> 8 = 0x80 + length / 256 := by
    omega
  rw [hor]
  simp only [Writer.u16be, Writer.u8, LittleEndian.leBytes, reverse_cons, reverse_nil, nil_append, hlow, hhigh]

/-- What the length octets mean. -/
theorem length_octets (h : length ≤ 0x7FFF) :
    (0x80 + length / 256) &&& 0x80 ≠ 0 ∧ ((0x80 + length / 256) &&& 0x7F) <<< 8 ||| length % 256 = length := by
  have htable : ∀ high < 128, (0x80 + high) &&& 0x80 ≠ 0 ∧ (0x80 + high) &&& 0x7F = high := by decide
  obtain ⟨hflag, hhigh⟩ := htable (length / 256) (by omega)
  refine ⟨hflag, ?_⟩
  rw [← Nat.shiftLeft_add_eq_or_of_lt (show length % 256 < 2 ^ 8 by omega)]
  omega

theorem update_header (fragmentation : Fragmentation) (h : code ≤ 0x0F) :
    code ||| fragmentation.bits <<< 4 < 2 ^ 8 ∧ (code ||| fragmentation.bits <<< 4) >>> 6 &&& compressionUsed = 0 ∧
      (code ||| fragmentation.bits <<< 4) &&& 0x0F = code ∧
      .ofBits ((code ||| fragmentation.bits <<< 4) >>> 4 &&& 0x03) = fragmentation := by
  have htable : ∀ code < 16, ∀ f : Fragmentation, code ||| f.bits <<< 4 < 2 ^ 8 ∧
      (code ||| f.bits <<< 4) >>> 6 &&& compressionUsed = 0 ∧ (code ||| f.bits <<< 4) &&& 0x0F = code ∧
      .ofBits ((code ||| f.bits <<< 4) >>> 4 &&& 0x03) = f := by
    intro code hcode f
    cases f <;> revert code <;> decide
  exact htable code (by omega) fragmentation

theorem readUpdate_readsBack (fragmentation : Fragmentation) {chunk : List UInt8} (hcode : code ≤ 0x0F)
    (hchunk : chunk.length < 2 ^ 16) :
    readUpdate.ReadsBack (Writer.u8 (code ||| fragmentation.bits <<< 4) ++ (Writer.u16le chunk.length ++ chunk))
      ⟨code, fragmentation, chunk⟩ := by
  obtain ⟨hbyte, hcompressed, hlow, hbits⟩ := update_header fragmentation hcode
  apply ReadsBack.at_
  intro start
  apply (u8_readsBack hbyte).bind
  apply ReadsBack.unless (not_not.mpr hcompressed)
  apply (u16le_readsBack hchunk).bind
  apply (bytes_readsBack chunk).map
  rw [hlow, hbits]
  exact ReadsBack.pure _

/-- The last update of a PDU ends the loop. -/
theorem readUpdates_one (fuel : ℕ) {bytes : List UInt8} {o : ℕ} (hbytes : bytes ≠ [])
    (h : readUpdate.ReadsBack bytes fragment) :
    readUpdates (fuel + 2) ⟨bytes, o⟩ = .ok ([fragment], ⟨[], o + bytes.length⟩) := by
  have hback := h [] o
  rw [append_nil] at hback
  have hempty : atEnd ⟨bytes, o⟩ = .ok (false, ⟨bytes, o⟩) := by
    cases bytes with
    | nil => exact absurd rfl hbytes
    | cons b bytes => rfl
  rw [readUpdates, Parse.bind_ok hempty]
  exact Parse.bind_ok (f := fun fragment => readUpdates (fuel + 1) >>= fun rest => pure (fragment :: rest)) hback

/-- A PDU in front of others: its length field delimits it and it holds its fragment. -/
structure Holds (pdu : List UInt8) (fragment : UpdateFragment) : Prop where
  frame : ∀ rest, peekFrame (pdu ++ rest) = .ok (some ⟨.fastpath, pdu.length⟩)
  decode : ∀ start, decodeOutputPdu pdu start = .ok [fragment]

theorem Carries.append {pdu rest : List UInt8} {fragments : List UpdateFragment}
    (h : Holds pdu fragment) (hrest : Carries rest fragments) : Carries (pdu ++ rest) (fragment :: fragments) := by
  have hlen : pdu.length ≤ (pdu ++ rest).length := by
    rw [length_append]
    omega
  apply Carries.cons (h.frame rest) hlen
  · rw [take_left]
    exact h.decode
  · rw [drop_left]
    exact hrest

/-- The length in the two octets behind a fast-path PDU's first. -/
theorem peekFrame_octets {first : ℕ} (hne : first ≠ 3) (haction : first &&& 0x03 = 0) (hlt : first < 2 ^ 8)
    (hmin : 3 ≤ length) (hmax : length ≤ 0x7FFF) (rest : List UInt8) :
    peekFrame (Writer.u8 first ++ (Writer.u16be (0x8000 ||| length) ++ rest)) = .ok (some ⟨.fastpath, length⟩) := by
  obtain ⟨hflag, hlength⟩ := length_octets hmax
  have hhigh : (UInt8.ofNat (0x80 + length / 256)).toNat = 0x80 + length / 256 := by
    rw [UInt8.toNat_ofNat']
    omega
  have hlow : (UInt8.ofNat (length % 256)).toNat = length % 256 := by
    rw [UInt8.toNat_ofNat']
    omega
  have hfirst : (UInt8.ofNat first).toNat = first := by
    rw [UInt8.toNat_ofNat']
    omega
  rw [u16be_length hmax]
  change peekFrame (UInt8.ofNat first :: UInt8.ofNat (0x80 + length / 256) :: UInt8.ofNat (length % 256) :: rest) = _
  unfold peekFrame
  dsimp only
  rw [hfirst, if_neg hne, if_pos haction]
  unfold peekFastpath
  dsimp only
  rw [hhigh, hlow, if_neg hflag, hlength, if_neg (by omega)]

/-- The header of a PDU of `length` bytes. -/
def header (length : ℕ) : List UInt8 :=
  Writer.u8 actionFastpath ++ (Writer.u8 (0x80 + length / 256) ++ Writer.u8 (length % 256))

theorem peekFrame_header (hmin : 3 ≤ length) (hmax : length ≤ 0x7FFF) (rest : List UInt8) :
    peekFrame (header length ++ rest) = .ok (some ⟨.fastpath, length⟩) := by
  have hpeek := peekFrame_octets (show actionFastpath ≠ 3 by decide) (by decide) (by decide) hmin hmax rest
  rwa [u16be_length hmax] at hpeek

/-- A PDU behind its header is its updates. -/
theorem readOutputPdu_header (hmax : length ≤ 0x7FFF) (body : List UInt8) (start : ℕ) :
    readOutputPdu length ⟨header length ++ body, start⟩ = readUpdates length ⟨body, start + 3⟩ := by
  obtain ⟨hflag, hlength⟩ := length_octets hmax
  have haction := u8_readsBack (show actionFastpath < 2 ^ 8 by decide)
  have hhigh := u8_readsBack (show 0x80 + length / 256 < 2 ^ 8 by omega)
  have hlow := u8_readsBack (show length % 256 < 2 ^ 8 by omega)
  unfold readOutputPdu header
  rw [append_assoc, append_assoc]
  rw [Parse.bind_ok (a := start) rfl, Parse.bind_ok (haction _ _), if_neg (by decide), if_neg (by decide)]
  rw [Parse.bind_ok (hhigh _ _), if_pos hflag, Parse.bind_ok (hlow _ _)]
  rw [hlength, Parse.bind_ok (Parse.pure_run length _)]
  dsimp only
  rw [if_neg (not_not.mpr rfl)]
  rfl

theorem writePdu_holds {fragmentation : Fragmentation} {chunk pdu : List UInt8} (hcode : code ≤ 0x0F)
    (h : writePdu code fragmentation chunk = some pdu) : Holds pdu ⟨code, fragmentation, chunk⟩ := by
  obtain ⟨_, hassert, h⟩ := Option.bind_eq_some_iff.mp h
  have hlen := asserts_eq_some.mp hassert
  have hchunk : chunk.length < 2 ^ 16 := by
    unfold pduOverhead at hlen
    omega
  have hpdu : pdu = header (pduOverhead + chunk.length) ++
      (Writer.u8 (code ||| fragmentation.bits <<< 4) ++ (Writer.u16le chunk.length ++ chunk)) := by
    rw [← Option.some.inj h, u16be_length hlen]
    simp only [header, append_assoc]
  have hsize : pdu.length = pduOverhead + chunk.length := by
    rw [hpdu]
    simp only [header, length_append, Writer.u8_length, Writer.u16le_length, pduOverhead]
    omega
  constructor
  · intro rest
    rw [hsize, hpdu]
    exact peekFrame_header (by unfold pduOverhead; omega) hlen _
  · intro start
    have hone := readUpdates_one (4 + chunk.length) (o := start + 3)
      (by simp [Writer.u8, LittleEndian.leBytes]) (readUpdate_readsBack fragmentation hcode hchunk)
    unfold decodeOutputPdu
    rw [hsize, hpdu, readOutputPdu_header hlen]
    rw [show pduOverhead + chunk.length = 4 + chunk.length + 2 by unfold pduOverhead; omega, hone]

/-! ### An update in pieces -/

/-- The rounds of the loop behind the first: next fragments and a last one, which are what is left of the data. -/
theorem writeFragments_rest {maxFragment : ℕ} (data : List UInt8) (hcode : code ≤ 0x0F) (hpos : 0 < maxFragment)
    (hmax : maxFragment ≤ 0x7FFF - pduOverhead) : ∀ fuel offset : ℕ, 0 < offset → offset < data.length →
      data.length - offset ≤ fuel → ∃ (bytes : List UInt8) (nexts : List (List UInt8)) (last : List UInt8),
        writeFragments code data maxFragment fuel offset = some bytes ∧
        Carries bytes (nexts.map (⟨code, .next, ·⟩) ++ [⟨code, .last, last⟩]) ∧
        nexts.flatten ++ last = data.drop offset ∧
        (∀ chunk ∈ nexts, chunk.length ≤ maxFragment) ∧ last.length ≤ maxFragment
  | 0, offset, _, hlt, hfuel => by omega
  | fuel + 1, offset, hoffset, hlt, hfuel => by
    set size := min maxFragment (data.length - offset) with hsize
    have hchunk : ((data.drop offset).take size).length = size := by
      rw [length_take, length_drop]
      omega
    have hroom : ((data.drop offset).take size).length ≤ 0x7FFF - pduOverhead := by omega
    by_cases hend : offset + size = data.length
    · -- the last fragment takes what is left, and the loop ends
      obtain ⟨pdu, hpdu⟩ := writePdu_some code .last hroom
      have hall : (data.drop offset).take size = data.drop offset :=
        take_of_length_le (by rw [length_drop]; omega)
      have hdone : writeFragments code data maxFragment fuel (offset + maxFragment) = some [] := by
        cases fuel with
        | zero => rfl
        | succ fuel => rw [writeFragments, if_neg (by omega)]
      refine ⟨pdu ++ [], [], data.drop offset, ?_, ?_, rfl, by simp, by rw [← hall]; omega⟩
      · rw [writeFragments, if_pos hlt]
        dsimp only
        rw [if_neg hoffset.ne', if_pos hend, hpdu, hdone]
        rfl
      · rw [hall] at hpdu
        exact Carries.append (writePdu_holds hcode hpdu) .nil
    · obtain ⟨pdu, hpdu⟩ := writePdu_some code .next hroom
      have hfull : size = maxFragment := by omega
      obtain ⟨bytes, nexts, last, hbytes, hcarries, hdata, hnexts, hlast⟩ := writeFragments_rest data hcode hpos hmax
        fuel (offset + maxFragment) (by omega) (by omega) (by omega)
      refine ⟨pdu ++ bytes, (data.drop offset).take size :: nexts, last, ?_, ?_, ?_, ?_, hlast⟩
      · rw [writeFragments, if_pos hlt]
        dsimp only
        rw [if_neg hoffset.ne', if_neg hend, hpdu, hbytes]
        rfl
      · exact Carries.append (writePdu_holds hcode hpdu) hcarries
      · rw [flatten_cons, append_assoc, hdata, ← drop_drop, hfull, take_append_drop]
      · rw [forall_mem_cons]
        exact ⟨hchunk.le.trans (Nat.min_le_left _ _), hnexts⟩

/-- **What is written for an update is its fragments**, each in a PDU of its own. -/
theorem encodeUpdate_carries {maxFragment : ℕ} (data : List UInt8) (hcode : code ≤ 0x0F) (hpos : 0 < maxFragment)
    (hmax : maxFragment ≤ 0x7FFF - pduOverhead) : ∃ bytes fragments, encodeUpdate code data maxFragment = some bytes ∧
      Carries bytes fragments ∧ Complete fragments ⟨code, data⟩ ∧ ∀ f ∈ fragments, f.data.length ≤ maxFragment := by
  unfold encodeUpdate
  rw [asserts, if_pos ⟨hcode, hpos, hmax⟩]
  by_cases hsmall : data.length ≤ maxFragment
  · obtain ⟨pdu, hpdu⟩ := writePdu_some code .single (hsmall.trans hmax)
    have hcarries := Carries.append (writePdu_holds hcode hpdu) .nil
    rw [append_nil] at hcarries
    refine ⟨pdu, _, ?_, hcarries, .single code data, by simpa using hsmall⟩
    change (if data.length ≤ maxFragment then _ else _) = _
    rw [if_pos hsmall, hpdu]
  · have hchunk : (data.take maxFragment).length = maxFragment := by
      rw [length_take]
      omega
    obtain ⟨pdu, hpdu⟩ := writePdu_some code .first (hchunk.le.trans hmax)
    obtain ⟨bytes, nexts, last, hbytes, hcarries, hdata, hnexts, hlast⟩ := writeFragments_rest data hcode hpos hmax
      (data.length - 1) maxFragment hpos (by omega) (by omega)
    have hfirst : min maxFragment (data.length - 0) = maxFragment := by omega
    refine ⟨pdu ++ bytes, _, ?_, Carries.append (writePdu_holds hcode hpdu) hcarries, ?_, ?_⟩
    · change (if data.length ≤ maxFragment then _ else _) = _
      rw [if_neg hsmall, show data.length = data.length - 1 + 1 by omega, writeFragments, if_pos (by omega)]
      dsimp only
      rw [if_pos rfl, drop_zero, hfirst, hpdu, Nat.zero_add, hbytes]
      rfl
    · have hcomplete := Complete.fragmented code (data.take maxFragment) nexts last
      rw [append_assoc, hdata, take_append_drop] at hcomplete
      exact hcomplete
    · simp only [forall_mem_cons, forall_mem_append, forall_mem_map]
      exact ⟨hchunk.le, hnexts, hlast, by simp⟩

/-! ### Updates put together -/

namespace Reassembler

/-- A fragment in error changes nothing; what is returned has room. -/
theorem add_cases (s : Reassembler) (fragment : UpdateFragment) :
    (∃ e, s.add fragment = (.error e, s)) ∨
    (∃ s', s.add fragment = (.ok none, s') ∧ s'.maxSize = s.maxSize) ∨
    ∃ update s', s.add fragment = (.ok (some update), s') ∧ s'.maxSize = s.maxSize ∧
      update.data.length ≤ s.maxSize := by
  unfold add
  cases fragment.fragmentation with
  | single =>
    by_cases hbad : s.code.isSome ∨ s.maxSize < fragment.data.length
    · exact .inl ⟨_, if_pos hbad⟩
    · exact .inr (.inr ⟨_, s, if_neg hbad, rfl, Nat.not_lt.mp (not_or.mp hbad).2⟩)
  | first =>
    by_cases hbad : s.code.isSome ∨ s.maxSize < fragment.data.length
    · exact .inl ⟨_, if_pos hbad⟩
    · exact .inr (.inl ⟨_, if_neg hbad, rfl⟩)
  | next =>
    by_cases hcode : s.code ≠ some fragment.code
    · exact .inl ⟨_, if_pos hcode⟩
    · by_cases hlarge : s.tooLarge fragment.data.length
      · exact .inl ⟨_, (if_neg hcode).trans (if_pos hlarge)⟩
      · exact .inr (.inl ⟨_, (if_neg hcode).trans (if_neg hlarge), rfl⟩)
  | last =>
    by_cases hcode : s.code ≠ some fragment.code
    · exact .inl ⟨_, if_pos hcode⟩
    · by_cases hlarge : s.tooLarge fragment.data.length
      · exact .inl ⟨_, (if_neg hcode).trans (if_pos hlarge)⟩
      · refine .inr (.inr ⟨_, _, (if_neg hcode).trans (if_neg hlarge), rfl, ?_⟩)
        rw [length_append]
        exact Nat.not_lt.mp hlarge

theorem add_error {e : Error} (h : (s.add fragment).1 = .error e) :
    (s.add fragment).2 = s := by
  rcases s.add_cases fragment with ⟨_, ha⟩ | ⟨_, ha, -⟩ | ⟨_, _, ha, -⟩
  · rw [ha]
  · rw [ha] at h
    cases h
  · rw [ha] at h
    cases h

variable {update : Update}

theorem add_length (h : (s.add fragment).1 = .ok (some update)) : update.data.length ≤ s.maxSize := by
  rcases s.add_cases fragment with ⟨_, ha⟩ | ⟨_, ha, -⟩ | ⟨_, _, ha, -, hroom⟩
  · rw [ha] at h
    cases h
  · rw [ha] at h
    cases h
  · rw [ha] at h
    cases h
    exact hroom

theorem add_maxSize (s : Reassembler) (fragment : UpdateFragment) : (s.add fragment).2.maxSize = s.maxSize := by
  rcases s.add_cases fragment with ⟨_, ha⟩ | ⟨_, ha, hmax⟩ | ⟨_, _, ha, hmax, -⟩
  · rw [ha]
  · rw [ha]
    exact hmax
  · rw [ha]
    exact hmax

theorem addAll_maxSize : ∀ (fragments : List UpdateFragment) (s : Reassembler),
    (s.addAll fragments).2.maxSize = s.maxSize
  | [], _ => rfl
  | fragment :: fragments, s => by
    rw [addAll]
    exact (addAll_maxSize fragments (s.add fragment).2).trans (add_maxSize s fragment)

/-- **No run returns an update above the limit.** -/
theorem addAll_length : ∀ (fragments : List UpdateFragment) (s : Reassembler) (update : Update),
    .ok (some update) ∈ (s.addAll fragments).1 → update.data.length ≤ s.maxSize
  | [], _, _, h => by cases h
  | fragment :: fragments, s, update, h => by
    rcases mem_cons.mp h with h | h
    · exact add_length h.symm
    · have hrest := addAll_length fragments (s.add fragment).2 update h
      rwa [add_maxSize] at hrest

/-- The next fragments and the last one, when what they make has room. -/
theorem addAll_rest (last : List UInt8) : ∀ (nexts : List (List UInt8)) (s : Reassembler),
    s.code = some code → s.buffer.length + (nexts.flatten ++ last).length ≤ s.maxSize →
      (s.addAll (nexts.map (⟨code, .next, ·⟩) ++ [⟨code, .last, last⟩])).1 =
        List.replicate nexts.length (.ok none) ++ [.ok (some ⟨code, s.buffer ++ (nexts.flatten ++ last)⟩)]
  | [], s, hcode, hroom => by
    have hfits : ¬ s.tooLarge last.length := Nat.not_lt.mpr (by simpa using hroom)
    simp [addAll, add, hcode, hfits]
  | next :: nexts, s, hcode, hroom => by
    rw [flatten_cons, append_assoc, length_append] at hroom
    have hfits : ¬ s.tooLarge next.length := Nat.not_lt.mpr (by omega)
    have hadd : s.add ⟨code, .next, next⟩ = (.ok none, { s with buffer := s.buffer ++ next }) := by
      simp [add, hcode, hfits]
    have ih := addAll_rest last nexts { s with buffer := s.buffer ++ next } hcode
      (by rw [length_append]; dsimp only; omega)
    rw [map_cons, cons_append, addAll, hadd]
    dsimp only
    rw [ih, length_cons, replicate_succ, flatten_cons]
    simp only [cons_append, append_assoc]

/-- **A complete update is returned by its last fragment**, when none is half assembled and it has room. -/
theorem intact_of_complete {fragments : List UpdateFragment} (h : Complete fragments update) (hcode : s.code = none)
    (hroom : update.data.length ≤ s.maxSize) : s.Intact fragments update := by
  cases h with
  | single code data => simp [Intact, addAll, add, hcode, Nat.not_lt.mpr hroom]
  | fragmented code first nexts last =>
    rw [append_assoc, length_append] at hroom
    have hadd : s.add ⟨code, .first, first⟩ = (.ok none, { s with code := some code, buffer := first }) := by
      simp [add, hcode, show ¬ s.maxSize < first.length by omega]
    have hrest := addAll_rest last nexts { s with code := some code, buffer := first } rfl hroom
    unfold Intact
    rw [cons_append, addAll, hadd]
    dsimp only
    rw [hrest]
    simp [replicate_succ]

/-- While one is half assembled, another is not taken. -/
theorem not_intact {fragments : List UpdateFragment} (h : Complete fragments update) (hcode : s.code.isSome) :
    ¬ s.Intact fragments update := by
  intro hintact
  cases h with
  | single code data => simp [Intact, addAll, add, hcode, fail] at hintact
  | fragmented code first nexts last => simp [Intact, addAll, add, hcode, fail, replicate_succ] at hintact

end Reassembler

/-- **Updates survive fragmentation**, no update above the limit is returned, and
an update behind an error comes back intact just when none was half assembled. -/
theorem update_reassembly (maxSize : ℕ) :
    (∀ (code maxFragment : ℕ) (data : List UInt8), code ≤ 0x0F → 0 < maxFragment → maxFragment ≤ 0x7FFF - pduOverhead →
      ∃ bytes fragments, encodeUpdate code data maxFragment = some bytes ∧ Carries bytes fragments ∧
        (∀ f ∈ fragments, f.data.length ≤ maxFragment) ∧
        (data.length ≤ maxSize → Reassembler.Intact { maxSize } fragments ⟨code, data⟩)) ∧
    (∀ (fragments : List UpdateFragment) (update : Update),
      .ok (some update) ∈ (Reassembler.addAll { maxSize } fragments).1 → update.data.length ≤ maxSize) ∧
    ∀ (earlier : List UpdateFragment) (fragment : UpdateFragment) (e : Error),
      let s := (Reassembler.addAll { maxSize } earlier).2
      (s.add fragment).1 = .error e → ∀ (fragments : List UpdateFragment) (update : Update),
        Complete fragments update → update.data.length ≤ maxSize →
          ((s.add fragment).2.Intact fragments update ↔ s.code = none) := by
  refine ⟨fun code maxFragment data hcode hpos hmax => ?_, fun fragments update h => ?_, ?_⟩
  · obtain ⟨bytes, fragments, hbytes, hcarries, hcomplete, hlen⟩ := encodeUpdate_carries data hcode hpos hmax
    exact ⟨bytes, fragments, hbytes, hcarries, hlen, fun hroom => Reassembler.intact_of_complete hcomplete rfl hroom⟩
  · exact Reassembler.addAll_length fragments _ update h
  · intro earlier fragment e s he fragments update hcomplete hroom
    have hmax : s.maxSize = maxSize := Reassembler.addAll_maxSize earlier { maxSize }
    rw [Reassembler.add_error he]
    constructor
    · intro hintact
      by_contra hcode
      exact Reassembler.not_intact hcomplete (Option.isSome_iff_ne_none.mpr hcode) hintact
    · intro hcode
      exact Reassembler.intact_of_complete hcomplete hcode (hmax ▸ hroom)

/-- A fragment of another update stays in the way of all that follow. -/
def interrupted : List UpdateFragment := [⟨1, .first, [0xAA]⟩, ⟨4, .last, [0xBB]⟩]

theorem interrupted_keeps_out :
    (∃ e, (Reassembler.addAll { maxSize := 16 } interrupted).1 = [.ok none, .error e]) ∧
      Complete [⟨3, .single, [0xCC]⟩] ⟨3, [0xCC]⟩ ∧ [0xCC].length ≤ 16 ∧
      ¬ (Reassembler.addAll { maxSize := 16 } interrupted).2.Intact [⟨3, .single, [0xCC]⟩] ⟨3, [0xCC]⟩ :=
  ⟨⟨_, rfl⟩, .single 3 [0xCC], by decide, Reassembler.not_intact (.single 3 [0xCC]) rfl⟩

/-- A whole update in two fragments. -/
def earlierUpdate : List UpdateFragment := [⟨4, .first, [0xAA]⟩, ⟨4, .last, [0xBB]⟩]

/-- Behind it a fragment that continues nothing is an error, and an update in
three fragments comes back. -/
theorem update_reassembly_fragmented :
    (∃ bytes fragments, encodeUpdate 3 [1, 2, 3, 4, 5] 2 = some bytes ∧ Carries bytes fragments ∧
      (∀ f ∈ fragments, f.data.length ≤ 2) ∧ Reassembler.Intact { maxSize := 5 } fragments ⟨3, [1, 2, 3, 4, 5]⟩) ∧
    let (results, s) := Reassembler.addAll { maxSize := 5 } earlierUpdate
    results = [.ok none, .ok (some ⟨4, [0xAA, 0xBB]⟩)] ∧ ∃ e, (s.add ⟨1, .next, [0xCC]⟩).1 = .error e ∧
      (s.add ⟨1, .next, [0xCC]⟩).2.Intact [⟨3, .first, [1, 2]⟩, ⟨3, .next, [3, 4]⟩, ⟨3, .last, [5]⟩]
        ⟨3, [1, 2, 3, 4, 5]⟩ := by
  obtain ⟨hround, -, herror⟩ := update_reassembly 5
  obtain ⟨bytes, fragments, hbytes, hcarries, hlen, hintact⟩ :=
    hround 3 2 [1, 2, 3, 4, 5] (by decide) (by decide) (by decide)
  refine ⟨⟨bytes, fragments, hbytes, hcarries, hlen, hintact (by decide)⟩, rfl, _, rfl, ?_⟩
  exact (herror earlierUpdate ⟨1, .next, [0xCC]⟩ _ rfl _ _ (.fragmented 3 [1, 2] [[3, 4]] [5]) (by decide)).mpr rfl

end Fastpath
end Proto
end Farland
