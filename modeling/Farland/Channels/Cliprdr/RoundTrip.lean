/-
# Clipboard messages, both ways

A message in normal form is decoded from its own encoding: as it was, when
format lists carry long names, and with every name cut to the longest prefix of
whole characters that fits its field, when they carry short ones. So are the
files of a packed file list. The four bytes that some servers append to a
message change nothing.

Key theorems: `readFixedUtf16`, `readLongName_readsBack`, `body_reads`,
`cliprdr_roundTrip`.
-/
import Farland.Channels.Cliprdr.Wire

namespace Farland
namespace Channels
namespace Cliprdr
namespace Wire

open Parse List Writer

/-! ### Names -/

/-- A name: text without a NUL, of at most `room` units. -/
def Named (room : ℕ) (name : Text) : Prop := ∃ cs, name = utf8 cs ∧ NulFree cs ∧ (units cs).length ≤ room

/-- `short` is the longest prefix of `name` in whole characters that fits `room` units. -/
def CutTo (room : ℕ) (name short : Text) : Prop := ∃ cs ds, name = utf8 cs ∧ short = utf8 ds ∧ Longest room cs ds

variable {cs : List Char}

theorem takeUnits_nulFree {room : ℕ} (h : NulFree cs) : NulFree (takeUnits room cs) :=
  fun c hc => h c ((takeUnits_longest room cs).isPrefix.subset hc)

theorem writeFixedUtf16_length (cs : List Char) (room : ℕ) {size : ℕ} (hsize : size = 2 * room + 2) :
    (writeFixedUtf16 (utf8 cs) size).length = size := by
  have hfits := (takeUnits_longest room cs).fits
  rw [writeFixedUtf16_cut cs hsize, length_append, utf16_length, zeros_length]
  omega

/-- **A name in a field of fixed size** is read back, cut to what fits. -/
theorem readFixedUtf16 (h : NulFree cs) (room : ℕ) {size : ℕ} (hsize : size = 2 * room + 2) :
    utf16leToUtf8 (writeFixedUtf16 (utf8 cs) size) = utf8 (takeUnits room cs) := by
  have hfits := (takeUnits_longest room cs).fits
  obtain ⟨rest, hrest⟩ : ∃ n, size - 2 * (units (takeUnits room cs)).length = n + 2 :=
    ⟨size - 2 * (units (takeUnits room cs)).length - 2, by omega⟩
  rw [writeFixedUtf16_cut cs hsize, hrest]
  exact utf16leToUtf8_terminated (takeUnits_nulFree h) (zeros rest)

theorem units_ne_zero (h : NulFree cs) : ∀ u ∈ units cs, u ≠ 0 := by
  intro u hu
  obtain ⟨c, hc, hmem⟩ := mem_flatMap.mp hu
  have h0 := h c hc
  unfold unitsOf at hmem
  split_ifs at hmem
  · simp only [mem_cons, not_mem_nil, or_false] at hmem
    omega
  · rw [mem_singleton] at hmem
    omega

/-- The terminator is the first unit that is zero. -/
theorem nameLength_units (offset : ℕ) (rest : Bytes) : ∀ (us : List ℕ) (room : ℕ), us.length ≤ room →
    (∀ u ∈ us, u < 0x10000 ∧ u ≠ 0) → nameLength offset room (us.flatMap utf16leUnit ++ 0 :: 0 :: rest) = .ok us.length
  | [], room, _, _ => by
    rw [flatMap_nil, nil_append, nameLength.eq_def]
    rfl
  | u :: us, 0, hroom, _ => by cases hroom
  | u :: us, room + 1, hroom, h => by
    obtain ⟨⟨hu, h0⟩, hus⟩ := forall_mem_cons.mp h
    have ih := nameLength_units offset rest us room (Nat.le_of_succ_le_succ hroom) hus
    have hunit : ¬ (UInt8.ofNat u = 0 ∧ UInt8.ofNat (u >>> 8) = 0) := by
      rintro ⟨hlow, hhigh⟩
      have hvalue := (List.cons.inj (utf16Units_cons hu [])).1
      rw [hlow, hhigh] at hvalue
      exact h0 hvalue.symm
    change nameLength offset (room + 1)
      (UInt8.ofNat u :: UInt8.ofNat (u >>> 8) :: (us.flatMap utf16leUnit ++ 0 :: 0 :: rest)) = _
    rw [nameLength.eq_def]
    simp only [hunit, ih]
    rfl

/-- **A name with a terminator** is read back. -/
theorem readLongName_readsBack (h : NulFree cs) (hroom : (units cs).length ≤ maxFormatNameLength) :
    readLongName.ReadsBack (utf16 cs ++ u16le 0) (utf8 cs) := by
  intro rest o
  have hlength : nameLength o maxFormatNameLength (utf16 cs ++ u16le 0 ++ rest) = .ok (units cs).length := by
    rw [utf16_eq, append_assoc]
    exact nameLength_units o rest (units cs) _ hroom fun u hu => ⟨units_lt cs u hu, units_ne_zero h u hu⟩
  have hread : (do
      let name ← Reader.bytes (2 * (units cs).length)
      Reader.skip 2
      pure (utf16leToUtf8 name) : Parse Text).ReadsBack (utf16 cs ++ u16le 0) (utf8 cs) := by
    rw [← utf16_length]
    apply (bytes_readsBack (utf16 cs)).bind
    have hskip : (Reader.skip 2).ReadsBack (u16le 0) () := fun rest o => Reader.skip_append (u16le 0) rest o rfl
    apply hskip.map
    rw [utf16leToUtf8_utf16 h]
    exact ReadsBack.pure _
  unfold readLongName
  simp only [hlength]
  exact hread rest o

/-! ### Normal form -/

structure FileContentsRequest.Normal (request : FileContentsRequest) : Prop where
  streamId : request.streamId < 2 ^ 32
  index : -(2 ^ 31) ≤ request.index ∧ request.index < 2 ^ 31
  position : request.position < 2 ^ 64
  requested : request.requested < 2 ^ 32
  clipDataId : ∀ id ∈ request.clipDataId, id < 2 ^ 32
  kind : (request.flags = fileContentsSize ∧ request.requested = 8 ∧ request.position = 0) ∨
    request.flags = fileContentsRange

/-- What comes back as it was. -/
def Pdu.Normal : Pdu → Prop
  | .capabilities caps =>
    (caps.version.isSome ↔ caps.generalFlags.isSome) ∧ (∀ v ∈ caps.version, v < 2 ^ 32) ∧
      ∀ f ∈ caps.generalFlags, f < 2 ^ 32
  | .monitorReady => True
  | .tempDirectory path => Named 259 path
  | .formatList formats => formats.length ≤ maxFormats ∧ ∀ f ∈ formats, f.id < 2 ^ 32 ∧ Named maxFormatNameLength f.name
  | .formatListResponse _ => True
  | .lockClipData clipDataId => clipDataId < 2 ^ 32
  | .unlockClipData clipDataId => clipDataId < 2 ^ 32
  | .formatDataRequest formatId => formatId < 2 ^ 32
  | .formatDataResponse ok data => ok = false → data = []
  | .fileContentsRequest request => request.Normal
  | .fileContentsResponse ok streamId data => streamId < 2 ^ 32 ∧ (ok = false → data = [])

/-- `short` is `format` with its name cut to fifteen units. -/
def ShortFormat (format short : Format) : Prop := short.id = format.id ∧ CutTo 15 format.name short.name

/-- What short names leave of a message. -/
inductive Short : Pdu → Pdu → Prop where
  | formatList {formats shorts : List Format} (h : List.Forall₂ ShortFormat formats shorts) :
    Short (.formatList formats) (.formatList shorts)
  | same (pdu : Pdu) (h : ∀ formats, pdu ≠ .formatList formats) : Short pdu pdu

/-! ### Format lists -/

theorem decodeLongNames_reads : ∀ (formats : List Format) (room : ℕ), formats.length ≤ room →
    (∀ f ∈ formats, f.id < 2 ^ 32 ∧ Named maxFormatNameLength f.name) →
    (decodeLongNames room).Reads (formats.flatMap (encodeFormat true)) formats
  | [], room, _, _ => by
    intro o
    cases room <;> exact ⟨_, rfl⟩
  | format :: formats, 0, hroom, _ => by cases hroom
  | ⟨id, name⟩ :: formats, room + 1, hroom, h => by
    obtain ⟨⟨hid, cs, hname, hnul, hunits⟩, htail⟩ := forall_mem_cons.mp h
    dsimp only at hid hname
    subst hname
    have ih := decodeLongNames_reads formats room (Nat.le_of_succ_le_succ hroom) htail
    have hread : (do
        let id ← Reader.u32le
        let name ← readLongName
        let formats ← decodeLongNames room
        pure (⟨id, name⟩ :: formats) : Parse (List Format)).Reads
          (u32le id ++ (utf16 cs ++ u16le 0 ++ formats.flatMap (encodeFormat true)))
          (⟨id, utf8 cs⟩ :: formats) := by
      apply (u32le_readsBack hid).then
      apply (readLongName_readsBack hnul hunits).then
      exact ih.then fun r => ⟨r, rfl⟩
    have hbytes : (Format.mk id (utf8 cs) :: formats).flatMap (encodeFormat true) =
        u32le id ++ (utf16 cs ++ u16le 0 ++ formats.flatMap (encodeFormat true)) := by
      rw [flatMap_cons, encodeFormat, if_pos rfl, utf8ToUtf16le_utf8, append_assoc]
    intro o
    rw [hbytes, decodeLongNames]
    exact hread o

variable {format : Format}

theorem readShortName_readsBack (hid : format.id < 2 ^ 32) (hname : Named maxFormatNameLength format.name) :
    ∃ short, ShortFormat format short ∧ (readShortName false).ReadsBack (encodeFormat false format) short := by
  obtain ⟨cs, hcs, hnul, -⟩ := hname
  refine ⟨⟨format.id, utf8 (takeUnits 15 cs)⟩, ⟨rfl, cs, _, hcs, rfl, takeUnits_longest 15 cs⟩, ?_⟩
  have hlength : (writeFixedUtf16 (utf8 cs) shortNameSize).length = shortNameSize := writeFixedUtf16_length cs 15 rfl
  have hback := bytes_readsBack (writeFixedUtf16 (utf8 cs) shortNameSize)
  rw [hlength] at hback
  rw [encodeFormat, hcs]
  apply (u32le_readsBack hid).bind
  apply hback.map
  rw [(readFixedUtf16 hnul 15 rfl :
    utf16leToUtf8 (writeFixedUtf16 (utf8 cs) shortNameSize) = utf8 (takeUnits 15 cs))]
  exact ReadsBack.pure _

theorem encodeFormat_short_length (hname : Named maxFormatNameLength format.name) :
    (encodeFormat false format).length = shortFormatSize := by
  obtain ⟨cs, hcs, -, -⟩ := hname
  have hlength : (writeFixedUtf16 (utf8 cs) shortNameSize).length = shortNameSize := writeFixedUtf16_length cs 15 rfl
  rw [encodeFormat, if_neg Bool.false_ne_true, hcs, length_append, hlength]
  rfl

variable {formats : List Format}

theorem shortNames_length (h : ∀ f ∈ formats, f.id < 2 ^ 32 ∧ Named maxFormatNameLength f.name) :
    (formats.flatMap (encodeFormat false)).length = formats.length * shortFormatSize := by
  induction formats with
  | nil => rfl
  | cons format formats ih =>
    obtain ⟨hformat, htail⟩ := forall_mem_cons.mp h
    rw [flatMap_cons, length_append, encodeFormat_short_length hformat.2, ih htail, length_cons,
      Nat.succ_mul, Nat.add_comm]

theorem decodeShortNames_reads (hmax : formats.length ≤ maxFormats)
    (h : ∀ f ∈ formats, f.id < 2 ^ 32 ∧ Named maxFormatNameLength f.name) :
    ∃ shorts, List.Forall₂ ShortFormat formats shorts ∧
      (decodeShortNames false).Reads (formats.flatMap (encodeFormat false)) shorts := by
  obtain ⟨shorts, hshorts, hback⟩ := readMany_readsBack_related (R := ShortFormat) formats fun f hf =>
    readShortName_readsBack (h f hf).1 (h f hf).2
  refine ⟨shorts, hshorts, fun o => ?_⟩
  have hlength := shortNames_length h
  have hpos : 0 < shortFormatSize := by decide
  unfold decodeShortNames Reader.remaining
  simp only [hlength, Nat.mul_mod_left, Nat.mul_div_cancel _ hpos]
  rw [if_neg (not_lt.mpr hmax)]
  exact hback.reads o

/-! ### The other bodies -/

theorem decodeCapabilities_reads {caps : Capabilities} (h : (Pdu.capabilities caps).Normal) :
    decodeCapabilities.Reads (encodeCapabilities caps) caps := by
  obtain ⟨version, generalFlags⟩ := caps
  obtain ⟨hsome, hv, hf⟩ := h
  have hskip : (Reader.skip 2).ReadsBack (u16le 0) () := fun rest o => Reader.skip_append (u16le 0) rest o rfl
  cases generalFlags with
  | none =>
    obtain rfl : version = none := by
      cases version with
      | none => rfl
      | some v => exact absurd (hsome.mp rfl) (by simp)
    unfold decodeCapabilities encodeCapabilities
    apply (u16le_readsBack (by decide : 0 < 2 ^ 16)).then
    apply hskip.last
    apply Reads.at_
    intro offset
    exact fun o => ⟨_, rfl⟩
  | some flags =>
    obtain ⟨v, rfl⟩ : ∃ v, version = some v := Option.isSome_iff_exists.mp (hsome.mpr rfl)
    have hversion := hv v rfl
    have hflags := hf flags rfl
    have hset : (readCapabilitySet {}).ReadsBack (u16le capstypeGeneral ++
        (u16le generalCapabilitySize ++ (u32le v ++ u32le flags))) ⟨some v, some flags⟩ := by
      apply ReadsBack.at_
      intro start
      apply (u16le_readsBack (by decide : capstypeGeneral < 2 ^ 16)).bind
      apply (u16le_readsBack (by decide : generalCapabilitySize < 2 ^ 16)).bind
      apply ReadsBack.unless (by decide)
      intro rest o
      have hsub := Reader.sub_append (n := generalCapabilitySize - 4) (u32le v ++ u32le flags) rest o rfl
      rw [Parse.bind_ok hsub]
      have hfields : (do
          let version ← Reader.u32le
          let generalFlags ← Reader.u32le
          pure ⟨some version, some generalFlags⟩ : Parse Capabilities).Reads (u32le v ++ u32le flags)
            ⟨some v, some flags⟩ := by
        apply (u32le_readsBack hversion).then
        exact (u32le_readsBack hflags).last (ReadsBack.pure _).reads
      obtain ⟨r, hr⟩ := hfields o
      unfold Parse.on
      simp only [hr]
      rfl
    unfold decodeCapabilities encodeCapabilities
    apply (u16le_readsBack (by decide : 1 < 2 ^ 16)).then
    apply hskip.then
    apply Reads.at_
    intro offset
    have hsets : (readCapabilitySets 1 {}).ReadsBack (u16le capstypeGeneral ++
        (u16le generalCapabilitySize ++ (u32le v ++ u32le flags))) ⟨some v, some flags⟩ :=
      hset.map (ReadsBack.pure _)
    apply hsets.last
    exact expectEnd_reads _ (ReadsBack.pure _).reads

theorem position_eq (position : ℕ) : (position >>> 32) <<< 32 ||| position % 2 ^ 32 = position := by
  rw [Nat.shiftRight_eq_div_pow, Nat.shiftLeft_eq, Nat.mul_comm]
  exact (or_eq_add 32 _ (Nat.mod_lt _ (by decide))).trans (Nat.div_add_mod position (2 ^ 32))

theorem readClipDataId_reads {clipDataId : Option ℕ} (h : ∀ id ∈ clipDataId, id < 2 ^ 32) :
    readClipDataId.Reads (clipDataIdBytes clipDataId) clipDataId := by
  cases clipDataId with
  | none => exact fun o => ⟨_, rfl⟩
  | some id =>
    apply Reads.atEnd
    exact (u32le_readsBack (h id rfl)).last (ReadsBack.pure _).reads

theorem decodeFileContentsRequest_reads {request : FileContentsRequest} (h : request.Normal) :
    decodeFileContentsRequest.Reads (encodeFileContentsRequest request) request := by
  obtain ⟨streamId, index, flags, position, requested, clipDataId⟩ := request
  obtain ⟨hstream, hindex, hposition, hrequested, hclip, hkind⟩ := h
  dsimp only at hstream hindex hposition hrequested hclip hkind
  have hflags : flags < 2 ^ 32 := by
    rcases hkind with ⟨rfl, -, -⟩ | rfl <;> decide
  have hlow : position % 2 ^ 32 < 2 ^ 32 := Nat.mod_lt _ (by decide)
  have hhigh : position >>> 32 < 2 ^ 32 := by
    omega
  have hlegal : ¬ (flags = fileContentsSize ∧ (requested ≠ 8 ∨ position ≠ 0)) := by
    rcases hkind with ⟨rfl, rfl, rfl⟩ | rfl
    · simp
    · exact fun hsize => absurd hsize.1 (by decide)
  have hknown : ¬ (flags ≠ fileContentsSize ∧ flags ≠ fileContentsRange) := by
    rcases hkind with ⟨rfl, -, -⟩ | rfl <;> simp
  have hlength : (encodeFileContentsRequest ⟨streamId, index, flags, position, requested, clipDataId⟩).length = 24 ∨
      (encodeFileContentsRequest ⟨streamId, index, flags, position, requested, clipDataId⟩).length = 28 := by
    cases clipDataId with
    | none => exact Or.inl rfl
    | some id => exact Or.inr rfl
  unfold decodeFileContentsRequest
  apply Reads.at_
  intro start
  apply Reads.left
  apply Reads.unless (by omega)
  unfold encodeFileContentsRequest
  apply (u32le_readsBack hstream).then
  apply (u32le_readsBack (toUnsigned_lt 32 index)).then
  apply (u32le_readsBack hflags).then
  apply (u32le_readsBack hlow).then
  apply (u32le_readsBack hhigh).then
  apply (u32le_readsBack hrequested).then
  apply (readClipDataId_reads hclip).then
  intro r
  rw [position_eq, if_neg hknown, if_neg hlegal, toSigned_toUnsigned (w := 31) hindex.1 hindex.2]
  exact ⟨r, rfl⟩

theorem fourBytes_reads (what : String) {v : ℕ} (h : v < 2 ^ 32) : (fourBytes what).Reads (u32le v) v := by
  intro o
  unfold fourBytes
  exact (u32le_readsBack h).reads o

theorem responseFlag_then {β : Type} (ok : Bool) (f : Bool → Parse β) :
    (responseFlag (responseFlags ok) >>= f) = f ok := by
  cases ok <;> rfl

theorem fileContentsResponse_body (flags : ℕ) (longNames : Bool) :
    decodeBody MsgType.fileContentsResponse flags longNames = (do
      let ok ← responseFlag flags
      let last ← Reader.atEnd
      if !ok && last then pure (.fileContentsResponse ok 0 [])
      else
        let streamId ← Reader.u32le
        if ok then
          let data ← restOf
          pure (.fileContentsResponse ok streamId data)
        else pure (.fileContentsResponse ok streamId [])) := rfl

/-- The last step of a body. -/
theorem reads_last {α : Type} {p : Parse α} {bytes : Bytes} {a : α} (f : α → Pdu) (h : p.Reads bytes a) :
    (p >>= fun a => pure (f a) : Parse Pdu).Reads bytes (f a) :=
  h.then fun r => ⟨r, rfl⟩

variable {pdu : Pdu}

/-- **A body is read back**, but for short names. -/
theorem body_reads (h : pdu.Normal) (longNames : Bool) :
    ∃ short, (if longNames then short = pdu else Short pdu short) ∧
      (decodeBody (typeOf pdu) (flagsOf pdu) longNames).Reads (encodeBody longNames pdu) short := by
  have hsame (hlist : ∀ formats, pdu ≠ .formatList formats)
      (hreads : (decodeBody (typeOf pdu) (flagsOf pdu) longNames).Reads (encodeBody longNames pdu) pdu) :
      ∃ short, (if longNames then short = pdu else Short pdu short) ∧
        (decodeBody (typeOf pdu) (flagsOf pdu) longNames).Reads (encodeBody longNames pdu) short := by
    refine ⟨pdu, ?_, hreads⟩
    split_ifs
    · rfl
    · exact Short.same pdu hlist
  cases pdu with
  | capabilities caps => exact hsame (by simp) (reads_last Pdu.capabilities (decodeCapabilities_reads h))
  | monitorReady => exact hsame (by simp) fun o => ⟨_, rfl⟩
  | tempDirectory path =>
    apply hsame (by simp)
    obtain ⟨cs, rfl, hnul, hunits⟩ := h
    have hlength : (writeFixedUtf16 (utf8 cs) pathFieldSize).length = pathFieldSize := writeFixedUtf16_length cs 259 rfl
    have hback := (bytes_readsBack (writeFixedUtf16 (utf8 cs) pathFieldSize)).reads
    have hname : utf16leToUtf8 (writeFixedUtf16 (utf8 cs) pathFieldSize) = utf8 cs := by
      rw [(readFixedUtf16 hnul 259 rfl :
        utf16leToUtf8 (writeFixedUtf16 (utf8 cs) pathFieldSize) = utf8 (takeUnits 259 cs)), takeUnits_all hunits]
    rw [hlength] at hback
    have hread := reads_last (fun path => Pdu.tempDirectory (utf16leToUtf8 path)) hback
    rw [hname] at hread
    apply Reads.left
    apply Reads.at_
    intro offset
    exact Reads.unless (not_not.mpr hlength) hread
  | formatList formats =>
    obtain ⟨hmax, hformats⟩ := h
    cases longNames with
    | true =>
      refine ⟨_, rfl, reads_last Pdu.formatList ?_⟩
      exact decodeLongNames_reads formats maxFormats hmax hformats
    | false =>
      obtain ⟨shorts, hshorts, hread⟩ := decodeShortNames_reads hmax hformats
      have hascii : (flagsOf (.formatList formats) &&& MsgFlag.asciiNames != 0) = false := by simp [flagsOf]
      refine ⟨.formatList shorts, Short.formatList hshorts, reads_last Pdu.formatList ?_⟩
      rw [hascii]
      exact hread
  | formatListResponse ok =>
    apply hsame (by simp)
    cases ok <;> exact fun o => ⟨_, rfl⟩
  | lockClipData id => exact hsame (by simp) (reads_last Pdu.lockClipData (fourBytes_reads _ h))
  | unlockClipData id => exact hsame (by simp) (reads_last Pdu.unlockClipData (fourBytes_reads _ h))
  | formatDataRequest id => exact hsame (by simp) (reads_last Pdu.formatDataRequest (fourBytes_reads _ h))
  | formatDataResponse ok data =>
    apply hsame (by simp)
    change (decodeBody MsgType.formatDataResponse (responseFlags ok) longNames).Reads _ _
    cases ok with
    | true => exact fun o => ⟨⟨data, o⟩, rfl⟩
    | false =>
      cases h rfl
      exact fun o => ⟨_, rfl⟩
  | fileContentsRequest request =>
    exact hsame (by simp) (reads_last Pdu.fileContentsRequest (decodeFileContentsRequest_reads h))
  | fileContentsResponse ok streamId data =>
    apply hsame (by simp)
    obtain ⟨hstream, hdata⟩ := h
    change (decodeBody MsgType.fileContentsResponse (responseFlags ok) longNames).Reads _ _
    rw [fileContentsResponse_body, responseFlag_then]
    apply Reads.atEnd
    cases ok with
    | true =>
      apply (u32le_readsBack hstream).then
      exact fun o => ⟨⟨data, o⟩, rfl⟩
    | false =>
      cases hdata rfl
      apply (u32le_readsBack hstream).then
      exact fun o => ⟨⟨[], o⟩, rfl⟩

/-! ### Messages -/

/-- What servers send behind a message that its length leaves out. -/
def Stray (stray : Bytes) : Prop := stray = [] ∨ stray.length = 4

/-- **Stray bytes** do not reach the body. -/
theorem decode_message {type flags : ℕ} {body stray : Bytes} (htype : type < 2 ^ 16) (hflags : flags < 2 ^ 16)
    (hbody : body.length < 2 ^ 32) (hstray : Stray stray) (longNames : Bool) :
    decode (message type flags body ++ stray) longNames = (decodeBody type flags longNames ⟨body, 8⟩).map Prod.fst := by
  have hlength : ¬ (body.length ≠ (body ++ stray).length ∧
      ((body ++ stray).length < 4 ∨ body.length ≠ (body ++ stray).length - 4)) := by
    rw [length_append]
    rcases hstray with rfl | hstray
    · simp
    · omega
  have hbytes : message type flags body ++ stray =
      u16le type ++ (u16le flags ++ (u32le body.length ++ (body ++ stray))) := by
    unfold message
    simp only [append_assoc]
  have hleft (o : ℕ) : Reader.left ⟨body ++ stray, o⟩ = .ok ((body ++ stray).length, ⟨body ++ stray, o⟩) := rfl
  unfold decode
  rw [hbytes, bind_ok (u16le_readsBack htype _ 0), bind_ok (u16le_readsBack hflags _ _),
    bind_ok (u32le_readsBack hbody _ _), bind_ok (hleft _), if_neg hlength,
    bind_ok (Reader.sub_append body stray _ rfl)]
  unfold Parse.on
  simp only [u16le_length, u32le_length]
  cases decodeBody type flags longNames ⟨body, 8⟩ <;> rfl

theorem typeOf_lt (pdu : Pdu) : typeOf pdu < 2 ^ 16 := by
  cases pdu <;> exact Nat.le_of_ble_eq_true rfl

theorem responseFlags_lt (ok : Bool) : responseFlags ok < 2 ^ 16 := by
  cases ok <;> decide

theorem flagsOf_lt (pdu : Pdu) : flagsOf pdu < 2 ^ 16 := by
  cases pdu <;> first | exact responseFlags_lt _ | exact Nat.two_pow_pos 16

/-- The data that a message carries for others. -/
def Pdu.data : Pdu → Bytes
  | .formatDataResponse _ data => data
  | .fileContentsResponse _ _ data => data
  | _ => []

theorem encodeFormat_length_le (hname : Named maxFormatNameLength format.name) (longNames : Bool) :
    (encodeFormat longNames format).length ≤ 518 := by
  cases longNames with
  | false =>
    rw [encodeFormat_short_length hname]
    decide
  | true =>
    obtain ⟨cs, hcs, -, hunits⟩ := hname
    have hid : (u32le format.id).length = 4 := rfl
    have hend : (u16le 0).length = 2 := rfl
    have hroom : maxFormatNameLength = 256 := rfl
    rw [encodeFormat, if_pos rfl, hcs, utf8ToUtf16le_utf8, length_append, length_append, utf16_length]
    omega

theorem formats_length_le (h : ∀ f ∈ formats, f.id < 2 ^ 32 ∧ Named maxFormatNameLength f.name) (longNames : Bool) :
    (formats.flatMap (encodeFormat longNames)).length ≤ formats.length * 518 := by
  induction formats with
  | nil => exact Nat.zero_le _
  | cons format formats ih =>
    obtain ⟨hformat, htail⟩ := forall_mem_cons.mp h
    have hhead := encodeFormat_length_le hformat.2 longNames
    have hrest := ih htail
    rw [flatMap_cons, length_append, length_cons]
    omega

/-- Only the data can be too long for its length field. -/
theorem encodeBody_length (h : pdu.Normal) (longNames : Bool) :
    (encodeBody longNames pdu).length ≤ max (256 * 518) (4 + pdu.data.length) := by
  cases pdu with
  | capabilities caps =>
    obtain ⟨version, generalFlags⟩ := caps
    cases generalFlags <;> exact le_max_of_le_left (by simp [encodeBody, encodeCapabilities])
  | monitorReady | formatListResponse ok => exact Nat.zero_le _
  | tempDirectory path =>
    obtain ⟨cs, rfl, -⟩ := h
    have hlength : (writeFixedUtf16 (utf8 cs) pathFieldSize).length = pathFieldSize := writeFixedUtf16_length cs 259 rfl
    have hsize : pathFieldSize = 520 := rfl
    change (writeFixedUtf16 (utf8 cs) pathFieldSize).length ≤ _
    omega
  | formatList formats =>
    obtain ⟨hmax, hformats⟩ := h
    have hlength := formats_length_le hformats longNames
    have hroom : maxFormats = 256 := rfl
    change (formats.flatMap (encodeFormat longNames)).length ≤ _
    omega
  | lockClipData id | unlockClipData id | formatDataRequest id => exact le_max_of_le_left (by simp [encodeBody])
  | formatDataResponse ok data =>
    apply le_max_of_le_right
    cases ok
    · exact Nat.zero_le _
    · exact Nat.le_add_left _ 4
  | fileContentsRequest request =>
    obtain ⟨streamId, index, flags, position, requested, clipDataId⟩ := request
    cases clipDataId <;> exact le_max_of_le_left (by simp [encodeBody, encodeFileContentsRequest, clipDataIdBytes])
  | fileContentsResponse ok streamId data =>
    apply le_max_of_le_right
    cases ok
    · exact Nat.le_add_right 4 _
    · exact le_of_eq (length_append)

/-- A message can be encoded unless its data is too long. -/
theorem encode_isSome (h : pdu.Normal) (hdata : pdu.data.length + 4 < 2 ^ 32) (longNames : Bool) :
    (encode pdu longNames).isSome := by
  have hlength := encodeBody_length h longNames
  unfold encode
  rw [if_pos (by omega)]
  rfl

/-- **A message comes back**, with short names as they were cut. -/
theorem decode_encode (h : pdu.Normal) (longNames : Bool) :
    ∃ short, (if longNames then short = pdu else Short pdu short) ∧
      ∀ bytes, encode pdu longNames = some bytes → ∀ stray, Stray stray →
        decode (bytes ++ stray) longNames = .ok short := by
  obtain ⟨short, hshort, hreads⟩ := body_reads h longNames
  refine ⟨short, hshort, fun bytes hbytes stray hstray => ?_⟩
  unfold encode at hbytes
  by_cases hlength : (encodeBody longNames pdu).length ≤ 4294967295
  · rw [if_pos hlength] at hbytes
    cases hbytes
    obtain ⟨r, hr⟩ := hreads 8
    rw [decode_message (typeOf_lt pdu) (flagsOf_lt pdu) (by omega) hstray, hr]
    rfl
  · rw [if_neg hlength] at hbytes
    cases hbytes

/-! ### Lists of files -/

structure FileInRange (file : FileDescriptor) : Prop where
  flags : file.flags < 2 ^ 32
  attributes : file.attributes < 2 ^ 32
  lastWriteTime : file.lastWriteTime < 2 ^ 64
  size : file.size < 2 ^ 64
  name : ∃ cs, file.name = utf8 cs ∧ NulFree cs

/-- `short` is `file` with its name cut to 259 units. -/
def ShortFile (file short : FileDescriptor) : Prop :=
  ∃ name, CutTo 259 file.name name ∧ short = { file with name }

theorem zeros_readsBack (n : ℕ) : (Reader.skip n).ReadsBack (zeros n) () :=
  fun rest o => by rw [Reader.skip_append (zeros n) rest o (zeros_length n), zeros_length]

theorem readFileDescriptor_readsBack {file : FileDescriptor} (h : FileInRange file) :
    ∃ short, ShortFile file short ∧ readFileDescriptor.ReadsBack (encodeFileDescriptor file) short := by
  obtain ⟨flags, attributes, lastWriteTime, size, name⟩ := file
  obtain ⟨hflags, hattributes, htime, hsize, cs, hcs, hnul⟩ := h
  dsimp only at hflags hattributes htime hsize hcs
  subst hcs
  have hlength : (writeFixedUtf16 (utf8 cs) pathFieldSize).length = pathFieldSize := writeFixedUtf16_length cs 259 rfl
  have hname : utf16leToUtf8 (writeFixedUtf16 (utf8 cs) pathFieldSize) = utf8 (takeUnits 259 cs) :=
    readFixedUtf16 hnul 259 rfl
  have hback := bytes_readsBack (writeFixedUtf16 (utf8 cs) pathFieldSize)
  have hlow : size % 2 ^ 32 < 2 ^ 32 := Nat.mod_lt _ (by decide)
  have hhigh : size >>> 32 < 2 ^ 32 := by
    omega
  rw [hlength] at hback
  refine ⟨⟨flags, attributes, lastWriteTime, size, utf8 (takeUnits 259 cs)⟩,
    ⟨_, ⟨cs, _, rfl, rfl, takeUnits_longest 259 cs⟩, rfl⟩, ?_⟩
  unfold readFileDescriptor encodeFileDescriptor
  apply (u32le_readsBack hflags).bind
  apply (zeros_readsBack 32).bind
  apply (u32le_readsBack hattributes).bind
  apply (zeros_readsBack 16).bind
  apply (u64le_readsBack htime).bind
  apply (u32le_readsBack hhigh).bind
  apply (u32le_readsBack hlow).bind
  apply hback.map
  rw [hname, position_eq]
  exact ReadsBack.pure _

theorem encodeFileDescriptor_length {file : FileDescriptor} (h : FileInRange file) :
    (encodeFileDescriptor file).length = fileDescriptorSize := by
  obtain ⟨cs, hcs, -⟩ := h.name
  have hlength : (writeFixedUtf16 (utf8 cs) pathFieldSize).length = pathFieldSize := writeFixedUtf16_length cs 259 rfl
  unfold encodeFileDescriptor
  simp only [length_append, hcs, hlength]
  rfl

variable {files : List FileDescriptor}

theorem files_length (h : ∀ f ∈ files, FileInRange f) :
    (files.flatMap encodeFileDescriptor).length = files.length * fileDescriptorSize := by
  induction files with
  | nil => rfl
  | cons file files ih =>
    obtain ⟨hfile, htail⟩ := forall_mem_cons.mp h
    rw [flatMap_cons, length_append, encodeFileDescriptor_length hfile, ih htail, length_cons,
      Nat.succ_mul, Nat.add_comm]

/-- **A list of files comes back**, with long names cut. -/
theorem decodeFileList_encodeFileList (hmax : files.length ≤ maxFileListItems) (h : ∀ f ∈ files, FileInRange f) :
    ∃ bytes shorts, encodeFileList files = some bytes ∧ List.Forall₂ ShortFile files shorts ∧
      decodeFileList bytes = .ok shorts := by
  obtain ⟨shorts, hshorts, hback⟩ := readMany_readsBack_related (R := ShortFile) files fun f hf =>
    readFileDescriptor_readsBack (h f hf)
  have hroom : maxFileListItems = 16384 := rfl
  have hcount : files.length < 2 ^ 32 := by omega
  refine ⟨u32le files.length ++ files.flatMap encodeFileDescriptor, shorts, ?_, hshorts, ?_⟩
  · unfold encodeFileList
    rw [if_pos (by omega)]
  · have hreads : readFileList.Reads (u32le files.length ++ files.flatMap encodeFileDescriptor) shorts := by
      apply (u32le_readsBack hcount).then
      intro o
      have hget : (get : Parse Reader) ⟨files.flatMap encodeFileDescriptor, o⟩ =
        .ok (⟨files.flatMap encodeFileDescriptor, o⟩, ⟨files.flatMap encodeFileDescriptor, o⟩) := rfl
      have hfill : ¬ (⟨files.flatMap encodeFileDescriptor, o⟩ : Reader).remaining ≠ files.length * fileDescriptorSize :=
        not_not.mpr (files_length h)
      rw [bind_ok hget, if_neg (not_lt.mpr hmax), if_neg hfill]
      exact hback.reads o
    obtain ⟨r, hr⟩ := hreads 0
    unfold decodeFileList
    rw [hr]
    rfl

/-! ### Names that fit -/

/-- A name that fits is not cut. -/
theorem CutTo.eq {room : ℕ} {name short : Text} (h : CutTo room name short) (hname : Named room name) :
    short = name := by
  obtain ⟨cs, ds, hcs, rfl, hlongest⟩ := h
  obtain ⟨cs', hcs', -, hunits⟩ := hname
  have hutf16 : utf16 cs = utf16 cs' := by rw [← utf8ToUtf16le_utf8, ← hcs, hcs', utf8ToUtf16le_utf8]
  have hlength := congrArg List.length hutf16
  rw [utf16_length, utf16_length] at hlength
  have hall := hlongest.longest cs prefix_rfl (by omega)
  rw [hcs, hlongest.isPrefix.eq_of_length_le hall.length_le]

theorem ShortFile.eq {file short : FileDescriptor} (h : ShortFile file short) (hname : Named 259 file.name) :
    short = file := by
  obtain ⟨name, hcut, rfl⟩ := h
  rw [hcut.eq hname]

theorem shorts_eq {shorts : List FileDescriptor} (h : List.Forall₂ ShortFile files shorts)
    (hnames : ∀ f ∈ files, Named 259 f.name) : shorts = files := by
  induction h with
  | nil => rfl
  | cons hfile _ ih =>
    obtain ⟨hname, htail⟩ := forall_mem_cons.mp hnames
    rw [hfile.eq hname, ih htail]

/-! ### Both ways -/

/-- **Clipboard messages, both ways.** With long names a message comes back as
it was, with short ones as they were cut, unless its data is too long to send.
Lists of files come back, with the names that are too long cut. Four stray
bytes behind any message make no difference. -/
theorem cliprdr_roundTrip :
    (∀ pdu : Pdu, pdu.Normal → ∀ bytes, encode pdu true = some bytes → ∀ stray, Stray stray →
      decode (bytes ++ stray) true = .ok pdu) ∧
    (∀ pdu : Pdu, pdu.Normal → ∃ short, Short pdu short ∧ ∀ bytes, encode pdu false = some bytes →
      ∀ stray, Stray stray → decode (bytes ++ stray) false = .ok short) ∧
    (∀ pdu : Pdu, pdu.Normal → pdu.data.length + 4 < 2 ^ 32 → ∀ longNames, (encode pdu longNames).isSome) ∧
    (∀ files : List FileDescriptor, files.length ≤ maxFileListItems → (∀ f ∈ files, FileInRange f) →
      ∃ bytes shorts, encodeFileList files = some bytes ∧ List.Forall₂ ShortFile files shorts ∧
        decodeFileList bytes = .ok shorts ∧ ((∀ f ∈ files, Named 259 f.name) → shorts = files)) ∧
    (∀ type flags : ℕ, ∀ body stray : Bytes, type < 2 ^ 16 → flags < 2 ^ 16 → body.length < 2 ^ 32 →
      stray.length = 4 → ∀ longNames,
        decode (message type flags body ++ stray) longNames = decode (message type flags body) longNames) := by
  refine ⟨fun pdu h bytes hbytes stray hstray => ?_, fun pdu h => ?_, fun pdu h hdata longNames => ?_,
    fun files hmax h => ?_, fun type flags body stray htype hflags hbody hstray longNames => ?_⟩
  · obtain ⟨short, hshort, hdecode⟩ := decode_encode h true
    rw [if_pos rfl] at hshort
    subst hshort
    exact hdecode bytes hbytes stray hstray
  · obtain ⟨short, hshort, hdecode⟩ := decode_encode h false
    rw [if_neg Bool.false_ne_true] at hshort
    exact ⟨short, hshort, hdecode⟩
  · exact encode_isSome h hdata longNames
  · obtain ⟨bytes, shorts, hbytes, hshorts, hdecode⟩ := decodeFileList_encodeFileList hmax h
    exact ⟨bytes, shorts, hbytes, hshorts, hdecode, shorts_eq hshorts⟩
  · have hplain := decode_message htype hflags hbody (Or.inl rfl) longNames
    rw [append_nil] at hplain
    rw [decode_message htype hflags hbody (Or.inr hstray) longNames, hplain]

/-- A list with one format whose name has a character outside the first plane. -/
def smileList : Pdu := .formatList [⟨0xC001, utf8 ['a', '😀']⟩]

def smileFile : FileDescriptor := ⟨0x4000, 0x20, 5, 2 ^ 32 + 7, utf8 ['😀', '.', 'x']⟩

theorem cliprdr_roundTrip_smile :
    (∃ bytes, encode smileList true = some bytes ∧ decode (bytes ++ [0, 0, 0, 0]) true = .ok smileList) ∧
    (∃ short, Short smileList short) ∧
    (∃ bytes, encodeFileList [smileFile] = some bytes ∧ decodeFileList bytes = .ok [smileFile]) ∧
    decode (message 1 0 [] ++ [0, 0, 0, 0]) true = decode (message 1 0 []) true := by
  obtain ⟨hlong, hshort, hsome, hfiles, hstray⟩ := cliprdr_roundTrip
  have hnul : NulFree ['a', '😀'] := forall_of_all (by decide)
  have hnul' : NulFree ['😀', '.', 'x'] := forall_of_all (by decide)
  have hname : Named maxFormatNameLength (utf8 ['a', '😀']) := ⟨_, rfl, hnul, by decide⟩
  have hnormal : smileList.Normal := ⟨by decide, fun f hf => by
    obtain rfl := mem_singleton.mp hf
    exact ⟨by decide, hname⟩⟩
  have hfile : ∀ f ∈ [smileFile], FileInRange f := fun f hf => by
    obtain rfl := mem_singleton.mp hf
    exact ⟨by decide, by decide, by decide, by decide, _, rfl, hnul'⟩
  have hfit : ∀ f ∈ [smileFile], Named 259 f.name := fun f hf => by
    obtain rfl := mem_singleton.mp hf
    exact ⟨_, rfl, hnul', by decide⟩
  obtain ⟨bytes, hbytes⟩ := Option.isSome_iff_exists.mp (hsome smileList hnormal (by decide) true)
  obtain ⟨short, hcut, -⟩ := hshort smileList hnormal
  obtain ⟨file, shorts, hencode, -, hdecode, hsame⟩ := hfiles [smileFile] (by decide) hfile
  rw [hsame hfit] at hdecode
  exact ⟨⟨bytes, hbytes, hlong smileList hnormal bytes hbytes _ (Or.inr rfl)⟩, ⟨short, hcut⟩,
    ⟨file, hencode, hdecode⟩, hstray 1 0 [] _ (by decide) (by decide) (by decide) rfl true⟩

end Wire
end Cliprdr
end Channels
end Farland
