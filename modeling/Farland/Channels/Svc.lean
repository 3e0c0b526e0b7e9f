/-
# Static virtual channel chunks

A message on a static channel is cut into chunks, each behind a header with
the length of the whole message and flags for the first and the last
(`channels/svc.cpp`). The reassembler takes the chunks of one channel; an
error drops what it has.

Key theorems: `encodeChunks_run`, `addAll_bounded`.
-/
import Farland.Base.ReadBack
import Farland.Lib.Machine

namespace Farland
namespace Channels
namespace Svc

open Reader List

def headerSize : ℕ := 8

namespace Flag

def first : ℕ := 0x00000001
def last : ℕ := 0x00000002
def showProtocol : ℕ := 0x00000010
def packetCompressed : ℕ := 0x00200000

end Flag

/-- `length` is the total of the message, repeated in every chunk. -/
structure ChunkHeader where
  length : ℕ
  flags : ℕ
  deriving DecidableEq

def encodeHeader (header : ChunkHeader) : List UInt8 := Writer.u32le header.length ++ Writer.u32le header.flags

def decodeHeader : Parse ChunkHeader := do
  let length ← u32le
  let flags ← u32le
  pure ⟨length, flags⟩

/-! ### Chunks of a message -/

/-- The flags of the chunk of `size` bytes at `offset`. -/
def chunkFlags (total commonFlags offset size : ℕ) : ℕ :=
  (commonFlags ||| if offset = 0 then Flag.first else 0) ||| if offset + size = total then Flag.last else 0

/-- The rounds of the loop from `offset` on; each but the first is at least a byte. -/
def encodeChunksFrom (message : List UInt8) (maxChunk commonFlags : ℕ) : ℕ → ℕ → List (List UInt8)
  | 0, _ => []
  | fuel + 1, offset =>
    let size := min maxChunk (message.length - offset)
    let flags := chunkFlags message.length commonFlags offset size
    let chunk := encodeHeader ⟨message.length, flags⟩ ++ (message.drop offset).take size
    chunk :: if offset + size < message.length then encodeChunksFrom message maxChunk commonFlags fuel (offset + size)
      else []

/-- One chunk for a message that fits it, which may be empty. -/
def encodeChunks (message : List UInt8) (maxChunk : ℕ) : Option (List (List UInt8)) := do
  asserts (0 < maxChunk)
  asserts (message.length ≤ 0xFFFFFFFF)
  let commonFlags := if maxChunk < message.length then Flag.showProtocol else 0
  pure (encodeChunksFrom message maxChunk commonFlags (message.length + 1) 0)

/-! ### Reassembly -/

/-- The chunks of one static channel. -/
structure Reassembler where
  maxMessageSize : ℕ
  maxChunk : ℕ
  total : Option ℕ := none
  buffer : List UInt8 := []
  deriving DecidableEq

namespace Reassembler

variable (s : Reassembler)

/-- No message is incomplete. -/
def Idle : Prop := s.total = none ∧ s.buffer = []

/-- A chunk whose header has been read. -/
def processChunk (header : ChunkHeader) (data : List UInt8) : Result (Option (List UInt8)) × Reassembler :=
  if header.flags &&& Flag.packetCompressed ≠ 0 then
    (fail .unsupported "compressed static virtual channel data" 4, s)
  else if s.maxChunk < data.length then
    (fail .limitExceeded "static virtual channel chunk above the chunk size" headerSize, s)
  else if s.maxMessageSize < header.length then (fail .limitExceeded "static virtual channel message too large" 0, s)
  else if header.flags &&& Flag.first ≠ 0 then
    if s.total.isSome then (fail .invalidValue "first static virtual channel chunk inside a message" 4, s)
    else if header.flags &&& Flag.last ≠ 0 then
      if data.length ≠ header.length then
        (fail .invalidLength "static virtual channel chunk disagrees with its length" 0, s)
      else (.ok (some data), s)
    else if header.length ≤ data.length then
      (fail .invalidLength "first static virtual channel chunk holds the whole message" 0, s)
    else (.ok none, { s with total := some header.length, buffer := data })
  else match s.total with
    | none => (fail .invalidValue "static virtual channel chunk without a first chunk" 4, s)
    | some total =>
      if header.length ≠ total then
        (fail .invalidLength "static virtual channel length changed between chunks" 0, s)
      else if total - s.buffer.length < data.length then
        (fail .invalidLength "static virtual channel chunks overrun the message" headerSize, s)
      else
        let s := { s with buffer := s.buffer ++ data }
        if header.flags &&& Flag.last = 0 then (.ok none, s)
        else if s.buffer.length ≠ total then
          (fail .invalidLength "last static virtual channel chunk ends early" headerSize, s)
        else (.ok (some s.buffer), { s with total := none, buffer := [] })

variable (pdu : List UInt8)

def process : Result (Option (List UInt8)) × Reassembler :=
  match decodeHeader ⟨pdu, 0⟩ with
  | .error e => (.error e, s)
  | .ok (header, r) => s.processChunk header r.rest

/-- The complete message once its last chunk arrives; an error drops the partial one. -/
def add : Result (Option (List UInt8)) × Reassembler :=
  match s.process pdu with
  | (.error e, s) => (.error e, { s with total := none, buffer := [] })
  | (.ok message, s) => (.ok message, s)

/-- What each of several chunks returned, and what is left. -/
def addAll (s : Reassembler) : List (List UInt8) → List (Result (Option (List UInt8))) × Reassembler
  | [] => ([], s)
  | pdu :: pdus =>
    let (result, s) := s.add pdu
    let (results, s) := s.addAll pdus
    (result :: results, s)

/-! ### Whatever arrives -/

/-- What is kept of an incomplete message is within its length, and that within the limit. -/
structure Bounded (s : Reassembler) : Prop where
  fits : s.buffer.length ≤ s.maxMessageSize
  total : ∀ total, s.total = some total → s.buffer.length ≤ total ∧ total ≤ s.maxMessageSize
  empty : s.total = none → s.buffer = []

/-- What one chunk may do. -/
structure Step (s : Reassembler) (result : Result (Option (List UInt8))) (s' : Reassembler) : Prop where
  limits : s'.maxMessageSize = s.maxMessageSize ∧ s'.maxChunk = s.maxChunk
  bounded : s'.Bounded
  returned : ∀ message, result = .ok (some message) → message.length ≤ s.maxMessageSize
  dropped : ∀ e, result = .error e → s'.Idle

theorem Step.of_ok {s s' : Reassembler} {message : Option (List UInt8)}
    (hl : s'.maxMessageSize = s.maxMessageSize ∧ s'.maxChunk = s.maxChunk) (hb : s'.Bounded)
    (hm : ∀ m, message = some m → m.length ≤ s.maxMessageSize) : Step s (.ok message) s' where
  limits := hl
  bounded := hb
  returned m h := hm m (Except.ok.inj h)
  dropped _ h := nomatch h

/-- An error, whatever had been stored before it. -/
theorem Step.of_error {s s' : Reassembler} {e : Error}
    (hl : s'.maxMessageSize = s.maxMessageSize ∧ s'.maxChunk = s.maxChunk) :
    Step s (.error e) { s' with total := none, buffer := [] } where
  limits := hl
  bounded := ⟨Nat.zero_le _, fun _ h => (nomatch h), fun _ => rfl⟩
  returned _ h := nomatch h
  dropped _ _ := ⟨rfl, rfl⟩

/-- A chunk either is an error, with the limits as they were, or leaves what the limits allow. -/
theorem processChunk_step {s : Reassembler} (hs : s.Bounded) (header : ChunkHeader) (data : List UInt8) :
    (∃ e s', s.processChunk header data = (.error e, s') ∧ s'.maxMessageSize = s.maxMessageSize ∧
      s'.maxChunk = s.maxChunk) ∨
    ∃ message s', s.processChunk header data = (.ok message, s') ∧ Step s (.ok message) s' := by
  unfold processChunk
  by_cases hcompressed : header.flags &&& Flag.packetCompressed ≠ 0
  · exact .inl ⟨_, s, if_pos hcompressed, rfl, rfl⟩
  rw [if_neg hcompressed]
  by_cases hchunk : s.maxChunk < data.length
  · exact .inl ⟨_, s, if_pos hchunk, rfl, rfl⟩
  rw [if_neg hchunk]
  by_cases hmax : s.maxMessageSize < header.length
  · exact .inl ⟨_, s, if_pos hmax, rfl, rfl⟩
  rw [if_neg hmax]
  by_cases hfirst : header.flags &&& Flag.first ≠ 0
  · rw [if_pos hfirst]
    by_cases htotal : s.total.isSome
    · exact .inl ⟨_, s, if_pos htotal, rfl, rfl⟩
    rw [if_neg htotal]
    by_cases hlast : header.flags &&& Flag.last ≠ 0
    · rw [if_pos hlast]
      by_cases hlen : data.length ≠ header.length
      · exact .inl ⟨_, s, if_pos hlen, rfl, rfl⟩
      · refine .inr ⟨_, s, if_neg hlen, Step.of_ok ⟨rfl, rfl⟩ hs fun m h => ?_⟩
        cases h
        omega
    · rw [if_neg hlast]
      by_cases hwhole : header.length ≤ data.length
      · exact .inl ⟨_, s, if_pos hwhole, rfl, rfl⟩
      · have hb : ({ s with total := some header.length, buffer := data } : Reassembler).Bounded :=
          ⟨by dsimp only; omega, fun t h => by cases h; exact ⟨by dsimp only; omega, Nat.not_lt.mp hmax⟩,
            fun h => (nomatch h)⟩
        exact .inr ⟨_, _, if_neg hwhole, Step.of_ok ⟨rfl, rfl⟩ hb fun m h => (nomatch h)⟩
  rw [if_neg hfirst]
  rcases ht : s.total with _ | total
  · exact .inl ⟨_, s, rfl, rfl, rfl⟩
  obtain ⟨hbuffer, htotal⟩ := hs.total total ht
  dsimp only
  by_cases hlength : header.length ≠ total
  · exact .inl ⟨_, s, if_pos hlength, rfl, rfl⟩
  rw [if_neg hlength]
  by_cases hover : total - s.buffer.length < data.length
  · exact .inl ⟨_, s, if_pos hover, rfl, rfl⟩
  rw [if_neg hover]
  have happend : (s.buffer ++ data).length = s.buffer.length + data.length := length_append
  by_cases hlast : header.flags &&& Flag.last = 0
  · have hb : ({ s with buffer := s.buffer ++ data, total := some total } : Reassembler).Bounded :=
      ⟨by dsimp only; omega, fun t h => by cases h; dsimp only; omega, fun h => (nomatch h)⟩
    exact .inr ⟨_, _, if_pos hlast, Step.of_ok ⟨rfl, rfl⟩ hb fun m h => (nomatch h)⟩
  rw [if_neg hlast]
  by_cases hend : (s.buffer ++ data).length ≠ total
  · exact .inl ⟨_, _, if_pos hend, rfl, rfl⟩
  · refine .inr ⟨_, _, if_neg hend, Step.of_ok ⟨rfl, rfl⟩ ⟨Nat.zero_le _, fun t h => (nomatch h), fun _ => rfl⟩
      fun m h => ?_⟩
    cases h
    omega

theorem add_step {s : Reassembler} (hs : s.Bounded) (pdu : List UInt8) : Step s (s.add pdu).1 (s.add pdu).2 := by
  unfold add process
  rcases decodeHeader ⟨pdu, 0⟩ with e | ⟨header, r⟩
  · exact Step.of_error ⟨rfl, rfl⟩
  · rcases processChunk_step hs header r.rest with ⟨e, s', hp, hl⟩ | ⟨message, s', hp, hstep⟩
    · dsimp only
      rw [hp]
      exact Step.of_error hl
    · dsimp only
      rw [hp]
      exact hstep

/-- **Whatever chunks arrive**, nothing above the limit is kept or returned, and an error leaves nothing. -/
theorem addAll_bounded : ∀ (pdus : List (List UInt8)) (s : Reassembler), s.Bounded →
    (s.addAll pdus).2.Bounded ∧ (s.addAll pdus).2.maxMessageSize = s.maxMessageSize ∧
      ∀ message, .ok (some message) ∈ (s.addAll pdus).1 → message.length ≤ s.maxMessageSize
  | [], s, hs => ⟨hs, rfl, fun _ h => nomatch h⟩
  | pdu :: pdus, s, hs => by
    have hstep := add_step hs pdu
    obtain ⟨hb, hmax, hmessages⟩ := addAll_bounded pdus (s.add pdu).2 hstep.bounded
    rw [hstep.limits.1] at hmax hmessages
    refine ⟨hb, hmax, fun message h => ?_⟩
    rcases mem_cons.mp h with h | h
    · exact hstep.returned message h.symm
    · exact hmessages message h

/-! ### The chunks of a message -/

/-- A chunk that is no error. -/
def receive : Result (Option (List UInt8) × Reassembler) :=
  match s.add pdu with
  | (.ok message, s) => .ok (message, s)
  | (.error e, _) => .error e

theorem receive_of_add {s s' : Reassembler} {pdu : List UInt8} {message : Option (List UInt8)}
    (h : s.add pdu = (.ok message, s')) : s.receive pdu = .ok (message, s') := by
  rw [receive, h]

end Reassembler

theorem decodeHeader_readsBack {header : ChunkHeader} (hlength : header.length < 2 ^ 32)
    (hflags : header.flags < 2 ^ 32) : decodeHeader.ReadsBack (encodeHeader header) header := by
  apply (Parse.u32le_readsBack hlength).bind
  apply (Parse.u32le_readsBack hflags).map
  exact Parse.ReadsBack.pure header

variable {commonFlags : ℕ}

/-- What the flags of a chunk say. -/
theorem chunkFlags_spec (total offset size : ℕ) (h : commonFlags = 0 ∨ commonFlags = Flag.showProtocol) :
    chunkFlags total commonFlags offset size < 2 ^ 32 ∧
      chunkFlags total commonFlags offset size &&& Flag.packetCompressed = 0 ∧
      (chunkFlags total commonFlags offset size &&& Flag.first ≠ 0 ↔ offset = 0) ∧
      (chunkFlags total commonFlags offset size &&& Flag.last ≠ 0 ↔ offset + size = total) := by
  have htable : ∀ c ∈ [0, Flag.showProtocol], ∀ f l : Bool,
      let flags := (c ||| if f then Flag.first else 0) ||| if l then Flag.last else 0
      flags < 2 ^ 32 ∧ flags &&& Flag.packetCompressed = 0 ∧ (flags &&& Flag.first ≠ 0 ↔ f) ∧
        (flags &&& Flag.last ≠ 0 ↔ l) := by decide
  have hflags := htable commonFlags (by simpa using h) (decide (offset = 0)) (decide (offset + size = total))
  unfold chunkFlags
  simpa only [decide_eq_true_eq] using hflags

/-- What the reassembler has of a message of which the first `offset` bytes arrived. -/
def Reassembler.Has (s : Reassembler) (message : List UInt8) (offset : ℕ) : Prop :=
  if offset = 0 then s.Idle else s.total = some message.length ∧ s.buffer = message.take offset

variable {message : List UInt8}

theorem Reassembler.Has.of_pos {s : Reassembler} {offset : ℕ} (h : 0 < offset) (htotal : s.total = some message.length)
    (hbuffer : s.buffer = message.take offset) : s.Has message offset := by
  rw [Has, if_neg h.ne']
  exact ⟨htotal, hbuffer⟩

/-- A chunk goes through its header. -/
theorem receive_chunk {s s' : Reassembler} {header : ChunkHeader} {data : List UInt8} {message : Option (List UInt8)}
    (hlength : header.length < 2 ^ 32) (hflags : header.flags < 2 ^ 32)
    (h : s.processChunk header data = (.ok message, s')) :
    s.receive (encodeHeader header ++ data) = .ok (message, s') := by
  apply Reassembler.receive_of_add
  unfold Reassembler.add Reassembler.process
  rw [decodeHeader_readsBack hlength hflags data 0]
  dsimp only
  rw [h]

section

variable {s : Reassembler} {message : List UInt8} {commonFlags offset size : ℕ}

/-- A chunk that is not the last adds to what there is. -/
theorem receive_more (hcommon : commonFlags = 0 ∨ commonFlags = Flag.showProtocol) (hsize : message.length < 2 ^ 32)
    (hroom : message.length ≤ s.maxMessageSize) (hchunk : size ≤ s.maxChunk) (hhas : s.Has message offset)
    (hmore : offset + size < message.length) (hpos : 0 < size) :
    ∃ s', s.receive (encodeHeader ⟨message.length, chunkFlags message.length commonFlags offset size⟩ ++
        (message.drop offset).take size) = .ok (none, s') ∧ s'.Has message (offset + size) ∧
      s'.maxMessageSize = s.maxMessageSize ∧ s'.maxChunk = s.maxChunk := by
  obtain ⟨hflags, hcompressed, hfirst, hlast⟩ := chunkFlags_spec message.length offset size hcommon
  have hdata : ((message.drop offset).take size).length = size := by
    rw [length_take, length_drop]
    omega
  have hnotlast : ¬ chunkFlags message.length commonFlags offset size &&& Flag.last ≠ 0 := by
    omega
  have hlater : 0 < offset + size := by omega
  unfold Reassembler.Has at hhas
  by_cases hzero : offset = 0
  · rw [if_pos hzero] at hhas
    obtain ⟨htotal, -⟩ := hhas
    refine ⟨{ s with total := some message.length, buffer := (message.drop offset).take size },
      receive_chunk hsize hflags ?_, .of_pos hlater rfl (by rw [hzero, drop_zero, Nat.zero_add]), rfl, rfl⟩
    unfold Reassembler.processChunk
    dsimp only
    rw [if_neg (not_not.mpr hcompressed), if_neg (by omega), if_neg (Nat.not_lt.mpr hroom), if_pos (hfirst.mpr hzero),
      if_neg (by simp [htotal]), if_neg hnotlast, if_neg (by omega)]
  · rw [if_neg hzero] at hhas
    obtain ⟨htotal, hbuffer⟩ := hhas
    have hhave : s.buffer.length = offset := by
      rw [hbuffer, length_take]
      omega
    have hnew : s.buffer ++ (message.drop offset).take size = message.take (offset + size) := by
      rw [hbuffer, take_add]
    refine ⟨{ s with total := some message.length, buffer := s.buffer ++ (message.drop offset).take size },
      receive_chunk hsize hflags ?_, .of_pos hlater rfl hnew, rfl, rfl⟩
    unfold Reassembler.processChunk
    rw [if_neg (not_not.mpr hcompressed), if_neg (by omega), if_neg (Nat.not_lt.mpr hroom),
      if_neg (fun h => hzero (hfirst.mp h)), htotal]
    dsimp only
    rw [if_neg (not_not.mpr rfl), if_neg (by omega), if_pos (not_not.mp hnotlast)]

/-- The last chunk completes the message. -/
theorem receive_last (hcommon : commonFlags = 0 ∨ commonFlags = Flag.showProtocol) (hsize : message.length < 2 ^ 32)
    (hroom : message.length ≤ s.maxMessageSize) (hchunk : size ≤ s.maxChunk) (hhas : s.Has message offset)
    (hend : offset + size = message.length) :
    s.receive (encodeHeader ⟨message.length, chunkFlags message.length commonFlags offset size⟩ ++
      (message.drop offset).take size) = .ok (some message, { s with total := none, buffer := [] }) := by
  obtain ⟨hflags, hcompressed, hfirst, hlast⟩ := chunkFlags_spec message.length offset size hcommon
  have hall : (message.drop offset).take size = message.drop offset :=
    take_of_length_le (by rw [length_drop]; omega)
  have hdata : (message.drop offset).length = size := by
    rw [length_drop]
    omega
  apply receive_chunk hsize hflags
  unfold Reassembler.Has at hhas
  unfold Reassembler.processChunk
  rw [hall, if_neg (not_not.mpr hcompressed), if_neg (by omega), if_neg (Nat.not_lt.mpr hroom)]
  by_cases hzero : offset = 0
  · rw [if_pos hzero] at hhas
    obtain ⟨htotal, hbuffer⟩ := hhas
    rw [if_pos (hfirst.mpr hzero), if_neg (by simp [htotal]), if_pos (hlast.mpr hend), if_neg (by simp [hzero]),
      ← htotal, ← hbuffer, hzero, drop_zero]
  · rw [if_neg hzero] at hhas
    obtain ⟨htotal, hbuffer⟩ := hhas
    have hhave : s.buffer.length = offset := by
      rw [hbuffer, length_take]
      omega
    have hnew : s.buffer ++ message.drop offset = message := by rw [hbuffer, take_append_drop]
    rw [if_neg (fun h => hzero (hfirst.mp h)), htotal]
    dsimp only
    rw [if_neg (not_not.mpr rfl), if_neg (by omega), if_neg (hlast.mpr hend), hnew, if_neg (not_not.mpr rfl)]

end

variable {maxChunk : ℕ}

theorem encodeChunksFrom_run (hpos : 0 < maxChunk) (hcommon : commonFlags = 0 ∨ commonFlags = Flag.showProtocol)
    (hsize : message.length < 2 ^ 32) :
    ∀ (fuel offset : ℕ) (s : Reassembler), message.length ≤ s.maxMessageSize →
      min maxChunk message.length ≤ s.maxChunk → s.Has message offset → offset ≤ message.length →
      message.length - offset < fuel →
        Machine.run Reassembler.receive s (encodeChunksFrom message maxChunk commonFlags fuel offset) =
          .ok ([message], { s with total := none, buffer := [] })
  | 0, offset, s, _, _, _, _, hfuel => by omega
  | fuel + 1, offset, s, hroom, hchunk, hhas, hoffset, hfuel => by
    unfold encodeChunksFrom
    by_cases hmore : offset + min maxChunk (message.length - offset) < message.length
    · obtain ⟨s', hreceive, hhas', hmax, hchunks⟩ := receive_more hcommon hsize hroom (by omega) hhas hmore (by omega)
      dsimp only
      rw [if_pos hmore]
      have hrest := encodeChunksFrom_run hpos hcommon hsize fuel _ s' (by omega) (by omega) hhas' (by omega) (by omega)
      rw [hmax, hchunks] at hrest
      exact Machine.run_cons hreceive hrest
    · have hreceive := receive_last hcommon hsize hroom
        (show min maxChunk (message.length - offset) ≤ s.maxChunk by omega) hhas (by omega)
      dsimp only
      rw [if_neg hmore]
      exact Machine.run_cons hreceive rfl

/-- **The chunks of a message give the message** at the last, and leave nothing. -/
theorem encodeChunks_run {chunks : List (List UInt8)} {s : Reassembler}
    (h : encodeChunks message maxChunk = some chunks) (hroom : message.length ≤ s.maxMessageSize)
    (hchunk : min maxChunk message.length ≤ s.maxChunk) (hidle : s.Idle) :
    Machine.run Reassembler.receive s chunks = .ok ([message], s) := by
  obtain ⟨_, hpos, h⟩ := Option.bind_eq_some_iff.mp h
  obtain ⟨_, hsize, h⟩ := Option.bind_eq_some_iff.mp h
  rw [asserts_eq_some] at hpos hsize
  cases Option.some.inj h
  have hcommon : (if maxChunk < message.length then Flag.showProtocol else 0) = 0 ∨
      (if maxChunk < message.length then Flag.showProtocol else 0) = Flag.showProtocol := by
    split_ifs
    · exact .inr rfl
    · exact .inl rfl
  have hrun := encodeChunksFrom_run hpos hcommon (by omega) (message.length + 1) 0 s hroom hchunk
    (by rw [Reassembler.Has]; exact hidle) (Nat.zero_le _) (by omega)
  rw [hrun, ← hidle.1, ← hidle.2]

theorem encodeChunksFrom_length : ∀ fuel offset : ℕ,
    ∀ chunk ∈ encodeChunksFrom message maxChunk commonFlags fuel offset, chunk.length ≤ headerSize + maxChunk
  | 0, _, _, h => nomatch h
  | fuel + 1, offset, chunk, h => by
    unfold encodeChunksFrom at h
    rcases mem_cons.mp h with rfl | h
    · rw [length_append, length_take]
      have hheader : (encodeHeader ⟨message.length, chunkFlags message.length commonFlags offset
          (min maxChunk (message.length - offset))⟩).length = headerSize := rfl
      rw [hheader]
      omega
    · split_ifs at h
      · exact encodeChunksFrom_length fuel _ chunk h
      · cases h

/-- A chunk carries at most `maxChunk` bytes behind its header. -/
theorem encodeChunks_length {chunks : List (List UInt8)} (h : encodeChunks message maxChunk = some chunks) :
    ∀ chunk ∈ chunks, chunk.length ≤ headerSize + maxChunk := by
  obtain ⟨_, -, h⟩ := Option.bind_eq_some_iff.mp h
  obtain ⟨_, -, h⟩ := Option.bind_eq_some_iff.mp h
  cases Option.some.inj h
  exact encodeChunksFrom_length _ _

theorem encodeChunks_some (hpos : 0 < maxChunk) (h : message.length ≤ 0xFFFFFFFF) :
    ∃ chunks, encodeChunks message maxChunk = some chunks :=
  ⟨_, by rw [encodeChunks, asserts, if_pos hpos, asserts, if_pos h]; rfl⟩

end Svc
end Channels
end Farland
