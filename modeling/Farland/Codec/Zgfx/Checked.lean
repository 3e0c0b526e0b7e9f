/-
# The ZGFX decompressor with its rules

The decoder of `codec/zgfx.cpp` once more, with what it has to obey on the way:
the assertions of the bit reader, that every span it takes of the ring, of the
output and of the tables lies in it, that no subtraction of sizes goes below
zero, and that every round of a loop gets on. `none` is a rule broken.

Key theorem: `decompressChecked_erases`, that it is the decoder without them.
-/
import Farland.Codec.Zgfx.Decompressor
import Farland.Lib.Checked

namespace Farland
namespace Codec
namespace Zgfx

open Reader

open Checked (rule lift Erases)

/-- The errors that stand for an assertion, or for a loop that does not end,
are rules. -/
def ruled {α : Type} : Result α → Checked Error α
  | .ok a => pure a
  | .error e => if e.code = .io then ExceptT.mk none else throw e

theorem ruled_erases {α : Type} (x : Result α) : Erases (ruled x) x := by
  rcases x with e | a
  · unfold ruled
    dsimp only
    split_ifs
    · exact fun r hr => by cases hr
    · exact .throw e
  · exact .pure a

namespace Decompressor

/-! ### The rules -/

/-- The loop of `record`: what it writes lies in the ring, and it is not
nothing. -/
def wrapInRange : ℕ → List UInt8 → ℕ → List UInt8 → Bool
  | 0, _, _, bytes => bytes.isEmpty
  | fuel + 1, ring, ringPos, bytes =>
    if bytes = [] then true
    else
      let n := min bytes.length (ring.length - ringPos)
      decide (0 < n ∧ ringPos + n ≤ ring.length) &&
        wrapInRange fuel (Ring.overwrite ring ringPos (bytes.take n)) ((ringPos + n) % ring.length) (bytes.drop n)

variable (d : Decompressor)

def recordInRange (bytes : List UInt8) : Bool :=
  let bytes := if bytes.length > d.p.history then bytes.drop (bytes.length - d.p.history) else bytes
  let (ring, ringPos, bytes) :=
    if d.ring.length < d.p.history then
      let grow := bytes.take (min bytes.length (d.p.history - d.ring.length))
      let ring := d.ring ++ grow
      (ring, ring.length % d.p.history, bytes.drop grow.length)
    else (d.ring, d.ringPos, bytes)
  wrapInRange bytes.length ring ringPos bytes

/-- Both pieces of a match lie in the ring, and what is repeated is not
nothing. -/
def copyInRange (distance length : ℕ) : Bool :=
  let fromHistory := min length distance
  let src := (d.ringPos + d.ring.length - distance) % d.ring.length
  let beforeWrap := min fromHistory (d.ring.length - src)
  decide (distance ≤ d.ringPos + d.ring.length ∧ 0 < d.ring.length ∧ src + beforeWrap ≤ d.ring.length ∧
    fromHistory - beforeWrap ≤ d.ring.length ∧ (fromHistory < length → 0 < fromHistory))

/-- The subtractions of `check_room`. -/
def roomInRange (b : Bounds) (have_ : ℕ) : Bool :=
  decide (b.segmentStart ≤ have_ ∧ have_ - b.segmentStart ≤ d.p.maxSegment ∧ have_ ≤ b.limit)

/-- The entries of the two tables. -/
def tokenInRange (br : BitReader) : Bool :=
  decide ((br.peek lookupBits).1 < 2 ^ lookupBits ∧
    (tokenLookup (br.peek lookupBits).1 ≠ reservedToken → tokenLookup (br.peek lookupBits).1 < tokens.length))

/-! ### The decoder -/

def checkRoomChecked (b : Bounds) (have_ more offset : ℕ) : Checked Error Unit := do
  rule (d.roomInRange b have_ = true)
  lift (d.checkRoom b have_ more offset)

def readTokenChecked (br : BitReader) : Checked Error (Token × ℕ × BitReader) := do
  rule (tokenInRange br = true)
  ruled (readToken br)

def syncChecked (s : Progress) : Checked Error Progress := do
  rule (s.recorded ≤ s.out.length)
  rule (s.d.recordInRange (s.out.drop s.recorded) = true)
  pure s.sync

variable (b : Bounds)

def decodeTokenChecked (s : Progress) (br : BitReader) : Checked Error (Progress × BitReader) := do
  let tokenAt := br.r.offset
  let (token, value, br) ← readTokenChecked br
  if token.isMatch = false then do
    s.d.checkRoomChecked b s.out.length 1 tokenAt
    pure ({ s with out := s.out ++ [UInt8.ofNat (token.base + value)] }, br)
  else
    let distance := token.base + value
    if distance = 0 then do
      let (count, br) ← ruled (br.read 15)
      s.d.checkRoomChecked b s.out.length count tokenAt
      let (out, br) ← ruled (br.readAligned count s.out)
      pure ({ s with out := out }, br)
    else do
      let (length, br) ← ruled (readLength tokenAt br)
      let s ← syncChecked s
      if distance > s.d.ring.length then
        lift (fail .invalidValue "ZGFX match distance reaches before the history" tokenAt)
      else do
        s.d.checkRoomChecked b s.out.length length tokenAt
        rule (s.d.copyInRange distance length = true)
        pure ({ s with out := s.out ++ s.d.copyMatch distance length }, br)

def decodeTokensChecked : ℕ → Progress → BitReader → Checked Error Progress
  | 0, _, _ => ruled (.error outOfFuel)
  | fuel + 1, s, br =>
    if br.remaining > 0 then do
      let next ← decodeTokenChecked b s br
      decodeTokensChecked fuel next.1 next.2
    else pure s

def decodeSegmentChecked (seg : Reader) (out : List UInt8) (limit : ℕ) (limitError : Errc) :
    Checked Error (Decompressor × List UInt8) := do
  let bounds : Bounds := ⟨out.length, limit, limitError⟩
  let headerAt := seg.offset
  let (header, seg) ← ruled (u8 seg)
  if header &&& compressionTypeMask ≠ d.p.type then
    lift (fail .unsupported "RDP8_BULK_ENCODED_DATA has an unexpected compression type" headerAt)
  else if header &&& packetCompressed = 0 then do
    d.checkRoomChecked bounds out.length seg.rest.length seg.offset
    rule (d.recordInRange seg.rest = true)
    pure (d.record seg.rest, out ++ seg.rest)
  else if seg.rest = [] then
    lift (fail .truncated "compressed ZGFX segment has no trailer byte" seg.offset)
  else do
    let (stream, seg) ← ruled (sub (seg.remaining - 1) seg)
    let trailerAt := seg.offset
    let (unused, _) ← ruled (u8 seg)
    if unused > 7 then
      lift (fail .invalidValue "ZGFX segment trailer is above 7" trailerAt)
    else if unused > stream.rest.length * 8 then
      lift (fail .invalidLength "ZGFX segment trailer exceeds the bit stream" trailerAt)
    else do
      let bits := stream.rest.length * 8 - unused
      rule (bits ≤ stream.rest.length * 8)
      let s ← decodeTokensChecked bounds (bits + 1) ⟨d, out, out.length⟩ ⟨stream, 0, 0, bits⟩
      let s ← syncChecked s
      pure (s.d, s.out)

def decodeSegmentsChecked (size : ℕ) : ℕ → Decompressor → Reader → List UInt8 →
    Checked Error (Decompressor × Reader × List UInt8)
  | 0, d, r, out => pure (d, r, out)
  | count + 1, d, r, out => do
    let (segmentSize, r) ← ruled (u32le r)
    let (segment, r) ← ruled (sub segmentSize r)
    let (d, out) ← d.decodeSegmentChecked segment out size .invalidLength
    decodeSegmentsChecked size count d r out

/-- `decompress` with its rules. -/
def decompressChecked (data : List UInt8) : Checked Error (List UInt8 × Decompressor) := do
  let r : Reader := ⟨data, 0⟩
  let (descriptor, r) ← ruled (u8 r)
  if descriptor = descriptorSingle then do
    let (segment, _) ← ruled (sub r.remaining r)
    let (d, out) ← d.decodeSegmentChecked segment [] d.maxOutput .limitExceeded
    pure (out, d)
  else if descriptor ≠ descriptorMultipart then
    lift (fail .invalidValue "unknown RDP_SEGMENTED_DATA descriptor" 0)
  else do
    let headerAt := r.offset
    let (count, r) ← ruled (u16le r)
    let (size, r) ← ruled (u32le r)
    if count = 0 then lift (fail .invalidValue "MULTIPART RDP_SEGMENTED_DATA without segments" headerAt)
    else if size > d.maxOutput then
      lift (fail .limitExceeded "ZGFX uncompressedSize exceeds the output limit" headerAt)
    else if size > count * d.p.maxSegment then
      lift (fail .invalidLength "ZGFX uncompressedSize exceeds what its segments can hold" headerAt)
    else if count > r.remaining / 5 then
      lift (fail .truncated "ZGFX segmentCount exceeds the input" headerAt)
    else do
      let (d, r, out) ← decodeSegmentsChecked size count d r []
      let _ ← ruled (expectEnd "trailing data after the last ZGFX segment" r)
      if out.length ≠ size then
        lift (fail .invalidLength "ZGFX segments do not add up to uncompressedSize" headerAt)
      else pure (out, d)

/-! ### The decoder without the rules -/

theorem checkRoomChecked_erases (b : Bounds) (have_ more offset : ℕ) :
    Erases (d.checkRoomChecked b have_ more offset) (d.checkRoom b have_ more offset) :=
  .rule (.lift _)

theorem syncChecked_erases {α : Type} (s : Progress) {f : Progress → Checked Error α} {y : Result α}
    (h : Erases (f s.sync) y) : Erases (syncChecked s >>= f) y := by
  unfold syncChecked
  simp only [bind_assoc]
  exact .rule (.rule h)

theorem decodeTokenChecked_erases (s : Progress) (br : BitReader) :
    Erases (decodeTokenChecked b s br) (decodeToken b s br) := by
  refine .bind (.rule (ruled_erases _)) fun t => ?_
  refine .ite ?_ ?_
  · refine .bind (checkRoomChecked_erases _ _ _ _ _) fun _ => ?_
    exact .pure _
  · refine .ite ?_ ?_
    · refine .bind (ruled_erases _) fun c => ?_
      refine .bind (checkRoomChecked_erases _ _ _ _ _) fun _ => ?_
      refine .bind (ruled_erases _) fun o => ?_
      exact .pure _
    · refine .bind (ruled_erases _) fun l => ?_
      refine syncChecked_erases s ?_
      refine .ite (.lift _) ?_
      refine .bind (checkRoomChecked_erases _ _ _ _ _) fun _ => ?_
      refine .rule ?_
      exact .pure _

theorem decodeTokensChecked_erases : ∀ (fuel : ℕ) (s : Progress) (br : BitReader),
    Erases (decodeTokensChecked b fuel s br) (decodeTokens b fuel s br)
  | 0, _, _ => ruled_erases _
  | fuel + 1, s, br => by
    have hmatch : decodeTokens b (fuel + 1) s br = if br.remaining > 0 then
        decodeToken b s br >>= fun next => decodeTokens b fuel next.1 next.2 else .ok s := by
      rw [decodeTokens]
      rcases decodeToken b s br with e | next <;> rfl
    rw [hmatch]
    refine .ite ?_ (.pure s)
    refine .bind (decodeTokenChecked_erases b s br) fun next => ?_
    exact decodeTokensChecked_erases fuel next.1 next.2

theorem decodeSegmentChecked_erases (seg : Reader) (out : List UInt8) (limit : ℕ) (e : Errc) :
    Erases (d.decodeSegmentChecked seg out limit e) (d.decodeSegment seg out limit e) := by
  refine .bind (ruled_erases _) fun h => ?_
  refine .ite (.lift _) ?_
  refine .ite ?_ ?_
  · refine .bind (checkRoomChecked_erases _ _ _ _ _) fun _ => ?_
    refine .rule ?_
    exact .pure _
  · refine .ite (.lift _) ?_
    refine .bind (ruled_erases _) fun stream => ?_
    refine .bind (ruled_erases _) fun unused => ?_
    refine .ite (.lift _) ?_
    refine .ite (.lift _) ?_
    refine .rule ?_
    refine .bind (decodeTokensChecked_erases _ _ _ _) fun s => ?_
    exact syncChecked_erases s (.pure _)

theorem decodeSegmentsChecked_erases (size : ℕ) : ∀ (count : ℕ) (d : Decompressor) (r : Reader) (out : List UInt8),
    Erases (decodeSegmentsChecked size count d r out) (decodeSegments size count d r out)
  | 0, _, _, _ => .pure _
  | count + 1, d, r, out => by
    refine .bind (ruled_erases _) fun segmentSize => ?_
    refine .bind (ruled_erases _) fun segment => ?_
    refine .bind (decodeSegmentChecked_erases _ _ _ _ _) fun next => ?_
    exact decodeSegmentsChecked_erases size count _ _ _

/-- **Without the rules it is the decoder.** -/
theorem decompressChecked_erases (data : List UInt8) : Erases (d.decompressChecked data) (d.decompress data) := by
  refine .bind (ruled_erases _) fun descriptor => ?_
  refine .ite ?_ ?_
  · refine .bind (ruled_erases _) fun segment => ?_
    refine .bind (decodeSegmentChecked_erases _ _ _ _ _) fun next => ?_
    exact .pure _
  · refine .ite (.lift _) ?_
    refine .bind (ruled_erases _) fun count => ?_
    refine .bind (ruled_erases _) fun size => ?_
    refine .ite (.lift _) ?_
    refine .ite (.lift _) ?_
    refine .ite (.lift _) ?_
    refine .ite (.lift _) ?_
    refine .bind (decodeSegmentsChecked_erases _ _ _ _ _) fun next => ?_
    refine .bind (ruled_erases _) fun _ => ?_
    exact .ite (.lift _) (.pure _)

end Decompressor
end Zgfx
end Codec
end Farland
