/-
# The ZGFX decompressor

`ZgfxDecompressor::State` of `codec/zgfx.cpp`: a ring with the last bytes of
output, and the decoding of RDP_SEGMENTED_DATA. The ring is brought up to date
lazily, before a match is copied and at the end of a segment.

Key theorems: `record_spec`, `copyMatch_spec`, and **`decodeTokens_spec`**,
that the token loop decodes the bits of a valid stream to what it stands for.
-/
import Farland.Codec.Zgfx.Format
import Farland.Lib.Ring

namespace Farland
namespace Codec
namespace Zgfx

open Bits Lz77 List Reader

structure Decompressor where
  variant : ZgfxVariant
  maxOutput : ℕ
  ring : List UInt8 := []
  ringPos : ℕ := 0
  deriving DecidableEq

namespace Decompressor

variable (d : Decompressor)

def p : Params := params d.variant

def reset : Decompressor := { d with ring := [], ringPos := 0 }

/-! ### The history -/

/-- The loop of `record` over a full ring; `fuel` bounds its iterations. -/
def recordWrap : ℕ → List UInt8 → ℕ → List UInt8 → List UInt8 × ℕ
  | 0, ring, ringPos, _ => (ring, ringPos)
  | fuel + 1, ring, ringPos, bytes =>
    if bytes = [] then (ring, ringPos)
    else
      let n := min bytes.length (ring.length - ringPos)
      recordWrap fuel (Ring.overwrite ring ringPos (bytes.take n)) ((ringPos + n) % ring.length) (bytes.drop n)

/-- Appends output bytes to the history. -/
def record (bytes : List UInt8) : Decompressor :=
  let bytes := if bytes.length > d.p.history then bytes.drop (bytes.length - d.p.history) else bytes
  let (ring, ringPos, bytes) :=
    if d.ring.length < d.p.history then
      let grow := bytes.take (min bytes.length (d.p.history - d.ring.length))
      let ring := d.ring ++ grow
      (ring, ring.length % d.p.history, bytes.drop grow.length)
    else (d.ring, d.ringPos, bytes)
  let w := recordWrap bytes.length ring ringPos bytes
  { d with ring := w.1, ringPos := w.2 }

/-- The loop of `copy_match` that repeats what is there; `fuel` bounds its
iterations. -/
def repeatTo (length : ℕ) : ℕ → List UInt8 → List UInt8
  | 0, dst => dst
  | fuel + 1, dst =>
    if dst.length < length then repeatTo length fuel (dst ++ dst.take (min dst.length (length - dst.length)))
    else dst

/-- The `length` bytes starting `distance` bytes back in the history. -/
def copyMatch (distance length : ℕ) : List UInt8 :=
  let fromHistory := min length distance
  let src := (d.ringPos + d.ring.length - distance) % d.ring.length
  let beforeWrap := min fromHistory (d.ring.length - src)
  let dst := (d.ring.drop src).take beforeWrap ++ d.ring.take (fromHistory - beforeWrap)
  repeatTo length length dst

/-! ### Decoding -/

structure Bounds where
  segmentStart : ℕ
  limit : ℕ
  limitError : Errc

def checkRoom (b : Bounds) (have_ more offset : ℕ) : Result Unit :=
  if more > d.p.maxSegment - (have_ - b.segmentStart) then
    fail .invalidLength "ZGFX segment decodes to more than the segment limit" offset
  else if more > b.limit - have_ then fail b.limitError "ZGFX output exceeds its limit" offset
  else .ok ()

/-- A token and its value. -/
def readToken (br : BitReader) : Result (Token × ℕ × BitReader) := do
  let tokenAt := br.r.offset
  let pk := br.peek lookupBits
  let index := tokenLookup pk.1
  if index = reservedToken then
    fail .invalidValue "reserved ZGFX token" tokenAt
  else
    let token := tokens.getD index noToken
    let br ← pk.2.skip token.prefixLength
    let (value, br) ← br.read token.valueBits
    .ok (token, value, br)

variable (tokenAt : ℕ)

/-- The ones of a match length, after the first; `left` more are allowed. -/
def readOnes : ℕ → ℕ → BitReader → Result (ℕ × BitReader)
  | left, ones, br => do
    let (bit, br) ← br.read 1
    if bit = 0 then .ok (ones, br)
    else
      match left with
      | 0 => fail .invalidValue "ZGFX match length prefix is too long" tokenAt
      | left + 1 => readOnes left (ones + 1) br

/-- Match length: `k` ones and a zero, then `k + 1` value bits. -/
def readLength (br : BitReader) : Result (ℕ × BitReader) := do
  let (first, br) ← br.read 1
  if first = 0 then .ok (minMatch, br)
  else
    let (ones, br) ← readOnes tokenAt (maxLengthOnes - 1) 1 br
    let (extra, br) ← br.read (ones + 1)
    .ok (2 ^ (ones + 1) + extra, br)

/-- The output so far, and how much of it is in the history. -/
structure Progress where
  d : Decompressor
  out : List UInt8
  recorded : ℕ

def Progress.sync (s : Progress) : Progress :=
  ⟨s.d.record (s.out.drop s.recorded), s.out, s.out.length⟩

/-- The body of the token loop. -/
def decodeToken (b : Bounds) (s : Progress) (br : BitReader) : Result (Progress × BitReader) := do
  let tokenAt := br.r.offset
  let (token, value, br) ← readToken br
  if token.isMatch = false then
    s.d.checkRoom b s.out.length 1 tokenAt
    .ok ({ s with out := s.out ++ [UInt8.ofNat (token.base + value)] }, br)
  else
    let distance := token.base + value
    if distance = 0 then
      let (count, br) ← br.read 15
      s.d.checkRoom b s.out.length count tokenAt
      let (out, br) ← br.readAligned count s.out
      .ok ({ s with out := out }, br)
    else
      let (length, br) ← readLength tokenAt br
      let s := s.sync
      if distance > s.d.ring.length then
        fail .invalidValue "ZGFX match distance reaches before the history" tokenAt
      else
        s.d.checkRoom b s.out.length length tokenAt
        .ok ({ s with out := s.out ++ s.d.copyMatch distance length }, br)

/-- Every token consumes a bit, so the bits remaining bound the iterations;
running out of `fuel` is an error of its own. -/
def outOfFuel : Error := ⟨.io, "token loop", 0⟩

def decodeTokens (b : Bounds) : ℕ → Progress → BitReader → Result Progress
  | 0, _, _ => .error outOfFuel
  | fuel + 1, s, br =>
    if br.remaining > 0 then
      match decodeToken b s br with
      | .ok next => decodeTokens b fuel next.1 next.2
      | .error e => .error e
    else .ok s

/-- One RDP8_BULK_ENCODED_DATA, appended to `out`. -/
def decodeSegment (seg : Reader) (out : List UInt8) (limit : ℕ) (limitError : Errc) :
    Result (Decompressor × List UInt8) := do
  let bounds : Bounds := ⟨out.length, limit, limitError⟩
  let headerAt := seg.offset
  let (header, seg) ← u8 seg
  if header &&& compressionTypeMask ≠ d.p.type then
    fail .unsupported "RDP8_BULK_ENCODED_DATA has an unexpected compression type" headerAt
  else if header &&& packetCompressed = 0 then
    d.checkRoom bounds out.length seg.rest.length seg.offset
    .ok (d.record seg.rest, out ++ seg.rest)
  else if seg.rest = [] then
    fail .truncated "compressed ZGFX segment has no trailer byte" seg.offset
  else
    let (stream, seg) ← sub (seg.remaining - 1) seg
    let trailerAt := seg.offset
    let (unused, _) ← u8 seg
    if unused > 7 then
      fail .invalidValue "ZGFX segment trailer is above 7" trailerAt
    else if unused > stream.rest.length * 8 then
      fail .invalidLength "ZGFX segment trailer exceeds the bit stream" trailerAt
    else
      let bits := stream.rest.length * 8 - unused
      let s ← decodeTokens bounds (bits + 1) ⟨d, out, out.length⟩ ⟨stream, 0, 0, bits⟩
      .ok (s.sync.d, s.out)

/-- The segments of a MULTIPART message. -/
def decodeSegments (size : ℕ) : ℕ → Decompressor → Reader → List UInt8 →
    Result (Decompressor × Reader × List UInt8)
  | 0, d, r, out => .ok (d, r, out)
  | count + 1, d, r, out => do
    let (segmentSize, r) ← u32le r
    let (segment, r) ← sub segmentSize r
    let (d, out) ← d.decodeSegment segment out size .invalidLength
    decodeSegments size count d r out

/-- Decompresses one RDP_SEGMENTED_DATA. -/
def decompress (data : List UInt8) : Result (List UInt8 × Decompressor) := do
  let r : Reader := ⟨data, 0⟩
  let (descriptor, r) ← u8 r
  if descriptor = descriptorSingle then
    let (segment, _) ← sub r.remaining r
    let (d, out) ← d.decodeSegment segment [] d.maxOutput .limitExceeded
    .ok (out, d)
  else if descriptor ≠ descriptorMultipart then
    fail .invalidValue "unknown RDP_SEGMENTED_DATA descriptor" 0
  else
    let headerAt := r.offset
    let (count, r) ← u16le r
    let (size, r) ← u32le r
    if count = 0 then fail .invalidValue "MULTIPART RDP_SEGMENTED_DATA without segments" headerAt
    else if size > d.maxOutput then
      fail .limitExceeded "ZGFX uncompressedSize exceeds the output limit" headerAt
    else if size > count * d.p.maxSegment then
      fail .invalidLength "ZGFX uncompressedSize exceeds what its segments can hold" headerAt
    else if count > r.remaining / 5 then
      fail .truncated "ZGFX segmentCount exceeds the input" headerAt
    else
      let (d, r, out) ← decodeSegments size count d r []
      let _ ← expectEnd "trailing data after the last ZGFX segment" r
      if out.length ≠ size then
        fail .invalidLength "ZGFX segments do not add up to uncompressedSize" headerAt
      else .ok (out, d)

/-! ### The ring holds the history -/

/-- The ring holds the end of the output since the last reset. -/
def Tracks (h : List UInt8) : Prop := Ring.Holds d.p.history d.ring d.ringPos h

theorem history_pos : 0 < d.p.history := by
  obtain ⟨h1, _, h2, _⟩ := params_bounds d.variant
  exact lt_of_lt_of_le h1 h2

theorem recordWrap_spec {cap : ℕ} : ∀ (fuel : ℕ) (ring : List UInt8) (ringPos : ℕ) (bytes h : List UInt8),
    Ring.Holds cap ring ringPos h → ring.length = cap → ringPos < cap → bytes.length ≤ fuel →
    Ring.Holds cap (recordWrap fuel ring ringPos bytes).1 (recordWrap fuel ring ringPos bytes).2 (h ++ bytes)
  | 0, ring, ringPos, bytes, h, hr, _, _, hf => by
    rw [length_eq_zero_iff.mp (Nat.le_zero.mp hf), append_nil]
    exact hr
  | fuel + 1, ring, ringPos, bytes, h, hr, hfull, hpos, hf => by
    rw [recordWrap]
    split_ifs with hnil
    · rw [hnil, append_nil]
      exact hr
    · have hlen : 0 < bytes.length := length_pos_iff.mpr hnil
      simp only [hfull]
      generalize hn : min bytes.length (cap - ringPos) = n
      have htake : (bytes.take n).length = n := by rw [length_take]; omega
      have hstep := hr.overwrite (bytes.take n) hfull (by omega)
      rw [htake] at hstep
      have hfull' : (Ring.overwrite ring ringPos (bytes.take n)).length = cap := by
        rw [Ring.overwrite_length (by omega), hfull]
      have := recordWrap_spec fuel _ _ (bytes.drop n) _ hstep hfull' (Nat.mod_lt _ (by omega))
        (by rw [length_drop]; omega)
      rwa [append_assoc, take_append_drop] at this

/-- Recording at most a history of bytes appends them to what the ring
holds. -/
theorem record_spec {d : Decompressor} {h : List UInt8} (hr : d.Tracks h) {bytes : List UInt8} (hle : bytes.length ≤ d.p.history) :
    (d.record bytes).Tracks (h ++ bytes) := by
  have hcap := d.history_pos
  have hlen := hr.length
  change Ring.Holds d.p.history (d.record bytes).ring (d.record bytes).ringPos (h ++ bytes)
  simp only [record]
  rw [if_neg (show ¬ bytes.length > d.p.history by omega)]
  rcases lt_or_ge d.ring.length d.p.history with hlt | hge
  · rw [if_pos hlt]
    generalize hn : min bytes.length (d.p.history - d.ring.length) = n
    have htake : (bytes.take n).length = n := by rw [length_take]; omega
    have hgrow := hr.grow (bytes.take n) hlt (by omega)
    simp only [htake]
    rcases lt_or_ge n bytes.length with hmore | hall
    · have := recordWrap_spec (bytes.drop n).length _ _ (bytes.drop n) _ hgrow
        (by rw [length_append]; omega) (Nat.mod_lt _ hcap) le_rfl
      rwa [append_assoc, take_append_drop] at this
    · rw [drop_of_length_le hall, take_of_length_le hall]
      rwa [take_of_length_le hall] at hgrow
  · rw [if_neg (by omega)]
    exact recordWrap_spec bytes.length d.ring d.ringPos bytes h hr (by omega) (by rw [hr.pos]; exact Nat.mod_lt _ hcap) le_rfl

/-! ### Copying a match -/

theorem repeatTo_spec (length : ℕ) {d : ℕ} {g : ℕ → Option UInt8} (hd : 1 ≤ d) : ∀ (fuel : ℕ) (dst : List UInt8),
    length ≤ dst.length + fuel → dst.length ≤ length → (dst.length < length → d ∣ dst.length ∧ d ≤ dst.length) →
    (∀ i < dst.length, dst[i]? = g (i % d)) →
    (repeatTo length fuel dst).length = length ∧ ∀ i < length, (repeatTo length fuel dst)[i]? = g (i % d)
  | 0, dst, hf, hle, _, hget => ⟨by rw [repeatTo]; omega, fun i hi => by rw [repeatTo]; exact hget i (by omega)⟩
  | fuel + 1, dst, hf, hle, hdvd, hget => by
    rw [repeatTo]
    split_ifs with hlt
    · obtain ⟨hdvd, hge⟩ := hdvd hlt
      generalize hn : min dst.length (length - dst.length) = n
      have htake : (dst.take n).length = n := by rw [length_take]; omega
      refine repeatTo_spec length hd fuel _ (by simp; omega) (by simp; omega) (fun h => ?_) fun i hi => ?_
      · rw [length_append, htake] at h ⊢
        have : n = dst.length := by omega
        rw [this]
        exact ⟨Dvd.dvd.add hdvd hdvd, by omega⟩
      · rw [length_append, htake] at hi
        rcases lt_or_ge i dst.length with h1 | h1
        · rw [getElem?_append_left h1, hget i h1]
        · obtain ⟨q, hq⟩ := hdvd
          rw [getElem?_append_right h1, getElem?_take_of_lt (by omega), hget _ (by omega)]
          congr 1
          rw [show i = i - dst.length + d * q by omega, Nat.add_mul_mod_self_left]
          congr 1
          omega
    · exact ⟨by omega, fun i hi => hget i (by omega)⟩

/-- The first part of a match, out of the ring. -/
theorem fromRing_spec {cap ringPos : ℕ} {ring h : List UInt8} (hr : Ring.Holds cap ring ringPos h) {distance n : ℕ}
    (hd : 1 ≤ distance) (hle : distance ≤ ring.length) (hn : n ≤ distance) :
    let src := (ringPos + ring.length - distance) % ring.length
    let dst := (ring.drop src).take (min n (ring.length - src)) ++ ring.take (n - min n (ring.length - src))
    dst.length = n ∧ ∀ i < n, dst[i]? = h[h.length - distance + i]? := by
  intro src dst
  have hsrc : src < ring.length := Nat.mod_lt _ (by omega)
  generalize hb : min n (ring.length - src) = before
  have hfirst : ((ring.drop src).take before).length = before := by simp; omega
  refine ⟨by simp only [dst, hb, length_append, hfirst, length_take]; omega, fun i hi => ?_⟩
  have hback := hr.get_back hd hle (i := i) (by omega)
  simp only [dst, hb]
  rcases lt_or_ge i before with h1 | h1
  · rw [getElem?_append_left (by omega), getElem?_take_of_lt h1, getElem?_drop, ← hback,
      Nat.mod_eq_of_lt (a := src + i) (by omega)]
  · rw [getElem?_append_right (by omega), hfirst, getElem?_take_of_lt (by omega), ← hback,
      show (src + i) = (i - before) + ring.length by omega, Nat.add_mod_right, Nat.mod_eq_of_lt (by omega)]

variable {bs : List UInt8}

/-- `copy_match` yields the copy, also where it overlaps its own output. -/
theorem copyMatch_spec {d : Decompressor} {h : List UInt8} {distance length : ℕ} (hr : d.Tracks h)
    (hle : distance ≤ d.ring.length) (hc : IsCopy h distance length bs) : d.copyMatch distance length = bs := by
  have hd := hc.pos
  obtain ⟨hlen, hget⟩ := fromRing_spec hr hd hle (min_le_right length distance)
  obtain ⟨h1, h2⟩ := repeatTo_spec length (g := fun i => h[h.length - distance + i]?) hd length _
    (by omega) (by rw [hlen]; omega) (fun hlt => by rw [hlen] at hlt ⊢; rw [show min length distance = distance by omega]; exact ⟨dvd_rfl, le_rfl⟩)
    (fun i hi => by rw [hlen] at hi; rw [hget i hi, Nat.mod_eq_of_lt (by omega)])
  exact hc.eq_of_get_mod h1 h2

/-! ### Decoding a token -/

/-- The next nine bits start with the token's prefix. -/
theorem tokenLookup_peek {i : ℕ} (hi : i < tokens.length) (B : List Bool) :
    tokenLookup (toNat ((ofNat (tokens.getD i noToken).prefixLength (tokens.getD i noToken).prefixBits ++ B ++
      List.replicate lookupBits false).take lookupBits)) = i := by
  set t := tokens.getD i noToken with ht
  have hmem : t ∈ tokens := by rw [ht, getD_eq_getElem _ _ hi]; exact getElem_mem hi
  obtain ⟨_, h8, _, hlt⟩ := tokens_widths t hmem
  have h9 : t.prefixLength ≤ lookupBits := by simp only [lookupBits]; omega
  generalize hR : B ++ List.replicate lookupBits false = R
  have hlen : (R.take (lookupBits - t.prefixLength)).length = lookupBits - t.prefixLength := by
    rw [← hR, length_take, length_append, length_replicate]
    omega
  rw [append_assoc, hR, take_append, take_of_length_le (by simpa using h9), ofNat_length, toNat_append,
    toNat_ofNat hlt, hlen]
  have hx := toNat_lt (R.take (lookupBits - t.prefixLength))
  rw [hlen] at hx
  refine tokenLookup_spec hi ?_ ?_
  · rw [← ht, Token.first]
    omega
  · rw [← ht, Token.stop, Token.first]
    omega

theorem readToken_spec {br : BitReader} {i v : ℕ} {T : List Bool} (hi : i < tokens.length)
    (hv : v < 2 ^ (tokens.getD i noToken).valueBits)
    (hr : br.Reads (ofNat (tokens.getD i noToken).prefixLength (tokens.getD i noToken).prefixBits ++
      ofNat (tokens.getD i noToken).valueBits v ++ T))
    (hrem : (tokens.getD i noToken).prefixLength + (tokens.getD i noToken).valueBits ≤ br.remaining) :
    ∃ br', readToken br = .ok (tokens.getD i noToken, v, br') ∧ br'.Reads T ∧
      br'.remaining = br.remaining - ((tokens.getD i noToken).prefixLength + (tokens.getD i noToken).valueBits) := by
  obtain ⟨b1, hp, hr1, hrem1, hbuf1⟩ := BitReader.peek_spec hr lookupBits (by decide)
  have hindex := tokenLookup_peek hi (ofNat (tokens.getD i noToken).valueBits v ++ T)
  set t := tokens.getD i noToken with ht
  have hmem : t ∈ tokens := by rw [ht, getD_eq_getElem _ _ hi]; exact getElem_mem hi
  obtain ⟨_, h8, h21, _⟩ := tokens_widths t hmem
  obtain ⟨b2, hs, hr2, hrem2⟩ := BitReader.skip_spec hr1 t.prefixLength (by omega) (by
    simp only [lookupBits, length_append, ofNat_length] at hbuf1
    omega)
  rw [append_assoc, drop_append_of_le_length (by simp), drop_of_length_le (by simp)] at hr2
  obtain ⟨b3, hread, hr3, hrem3⟩ := BitReader.read_spec hr2 (by omega) hv (by omega)
  refine ⟨b3, ?_, hr3, by omega⟩
  have hne : i ≠ reservedToken := by
    have : tokens.length = 37 := rfl
    simp only [reservedToken]
    omega
  rw [← append_assoc] at hindex
  simp only [readToken, hp, hindex, if_neg hne, ← ht, hs, hread, bind, Except.bind]

theorem readOnes_spec {T : List Bool} : ∀ (k left ones : ℕ) (br : BitReader),
    br.Reads (List.replicate k true ++ false :: T) → k ≤ left → k + 1 ≤ br.remaining →
    ∃ br', readOnes tokenAt left ones br = .ok (ones + k, br') ∧ br'.Reads T ∧
      br'.remaining = br.remaining - (k + 1)
  | 0, left, ones, br, hr, _, hrem => by
    obtain ⟨b1, hread, hr1, hrem1⟩ := BitReader.read_spec (n := 1) (v := 0) (T := T) hr (by decide) (by decide) hrem
    refine ⟨b1, ?_, hr1, hrem1⟩
    rw [readOnes.eq_def]
    simp only [hread, bind, Except.bind, if_true, add_zero]
  | k + 1, 0, ones, br, _, hk, _ => absurd hk (by omega)
  | k + 1, left + 1, ones, br, hr, hk, hrem => by
    obtain ⟨b1, hread, hr1, hrem1⟩ := BitReader.read_spec (n := 1) (v := 1)
      (T := List.replicate k true ++ false :: T) hr (by decide) (by decide) (by omega)
    obtain ⟨b2, h2, hr2, hrem2⟩ := readOnes_spec k left (ones + 1) b1 hr1 (by omega) (by omega)
    refine ⟨b2, ?_, hr2, by omega⟩
    rw [readOnes.eq_def]
    simp only [hread, bind, Except.bind, one_ne_zero, if_false]
    rw [h2, add_assoc, add_comm 1 k]

theorem readLength_spec {length : ℕ} {T : List Bool} {br : BitReader} (h3 : minMatch ≤ length)
    (hmax : length ≤ maxMatch) (hr : br.Reads ((lengthCode length).wire ++ T))
    (hrem : (lengthCode length).wire.length ≤ br.remaining) :
    ∃ br', readLength tokenAt br = .ok (length, br') ∧ br'.Reads T ∧
      br'.remaining = br.remaining - (lengthCode length).wire.length := by
  rcases eq_or_lt_of_le h3 with rfl | h3
  · obtain ⟨b1, hread, hr1, hrem1⟩ := BitReader.read_spec (n := 1) (v := 0) (T := T) hr (by decide) (by decide) hrem
    refine ⟨b1, ?_, hr1, hrem1⟩
    simp only [readLength, hread, bind, Except.bind, if_true]
  · obtain ⟨k, v, hk1, hk14, hv, hlen, hwire⟩ := lengthCode_spec h3 hmax
    obtain ⟨k, rfl⟩ : ∃ k', k = k' + 1 := ⟨k - 1, by omega⟩
    simp only [maxLengthOnes] at hk14
    rw [hwire] at hr hrem ⊢
    simp only [length_append, length_replicate, length_cons, ofNat_length] at hrem ⊢
    rw [append_assoc] at hr
    obtain ⟨b1, hread, hr1, hrem1⟩ := BitReader.read_spec (n := 1) (v := 1)
      (T := List.replicate k true ++ false :: (ofNat (k + 1 + 1) v ++ T)) hr (by decide) (by decide) (by omega)
    obtain ⟨b2, hones, hr2, hrem2⟩ := readOnes_spec tokenAt k (maxLengthOnes - 1) 1 b1 hr1
      (by simp only [maxLengthOnes]; omega) (by omega)
    obtain ⟨b3, hextra, hr3, hrem3⟩ := BitReader.read_spec hr2 (by omega) hv (by omega)
    refine ⟨b3, ?_, hr3, by omega⟩
    rw [add_comm k 1] at hextra hlen
    simp only [readLength, hread, bind, Except.bind, one_ne_zero, if_false, hones, hextra, ← hlen]

/-- The invariant of the token loop of decompressor `d`: the ring and the
bytes not recorded yet are the history `h`, and the segment is within its
limit. -/
structure Progress.Good (b : Bounds) (d : Decompressor) (s : Progress) (h : List UInt8) : Prop where
  tracks : ∃ h0, s.d.Tracks h0 ∧ h0 ++ s.out.drop s.recorded = h
  start : b.segmentStart ≤ s.recorded
  recorded : s.recorded ≤ s.out.length
  room : s.out.length ≤ b.segmentStart + d.p.maxSegment
  variant : s.d.variant = d.variant
  maxOutput : s.d.maxOutput = d.maxOutput

/-- `bs` more bytes fit the segment and the output. -/
def Fits (b : Bounds) (d : Decompressor) (s : Progress) (n : ℕ) : Prop :=
  s.out.length + n ≤ b.segmentStart + d.p.maxSegment ∧ s.out.length + n ≤ b.limit

variable {b : Bounds} {d : Decompressor} {s : Progress} {h : List UInt8}

theorem Progress.Good.p_eq (hg : s.Good b d h) : s.d.p = d.p := by rw [p, hg.variant, p]

theorem checkRoom_spec (hg : s.Good b d h) {n : ℕ} (hfit : Fits b d s n) (offset : ℕ) :
    s.d.checkRoom b s.out.length n offset = .ok () := by
  have h1 := hg.start
  have h2 := hg.recorded
  obtain ⟨h3, h4⟩ := hfit
  rw [checkRoom, hg.p_eq, if_neg (by omega), if_neg (by omega)]

theorem Progress.Good.append (hg : s.Good b d h) (hfit : Fits b d s bs.length) :
    Progress.Good b d { s with out := s.out ++ bs } (h ++ bs) := by
  obtain ⟨h0, ht, hh⟩ := hg.tracks
  refine ⟨⟨h0, ht, ?_⟩, hg.start, ?_, ?_, hg.variant, hg.maxOutput⟩
  · rw [drop_append_of_le_length hg.recorded, ← append_assoc, hh]
  · exact hg.recorded.trans (by simp)
  · rw [length_append]
    exact hfit.1

theorem Progress.Good.sync (hg : s.Good b d h) : s.sync.Good b d h ∧ s.sync.d.Tracks h := by
  obtain ⟨h0, ht, hh⟩ := hg.tracks
  have h1 := hg.start
  have h2 := hg.recorded
  have h3 := hg.room
  obtain ⟨_, _, h4, _⟩ := params_bounds d.variant
  have htracks : s.sync.d.Tracks h := by
    have := record_spec ht (show (s.out.drop s.recorded).length ≤ s.d.p.history by
      rw [length_drop, hg.p_eq]
      simp only [p] at h3 ⊢
      omega)
    rwa [hh] at this
  refine ⟨⟨⟨h, htracks, ?_⟩, ?_, le_rfl, h3, hg.variant, hg.maxOutput⟩, htracks⟩
  · simp [Progress.sync]
  · simp only [Progress.sync]
    omega

/-- One round of the loop consumes the bits of `t`, `n` of them, and appends
`bs`. -/
def Decodes (b : Bounds) (d : Decompressor) (s : Progress) (br : BitReader) (h bs : List UInt8) (n : ℕ)
    (T : List Bool) : Prop :=
  ∃ s' br', decodeToken b s br = .ok (s', br') ∧ s'.out = s.out ++ bs ∧ s'.Good b d (h ++ bs) ∧
    br'.Reads T ∧ br'.remaining = br.remaining - n

variable {br : BitReader} {T : List Bool} {q : ℕ}

theorem decodeToken_lit {c : UInt8} (hg : s.Good b d h) (hr : br.Reads (wire q (.lit c) ++ T))
    (hrem : (wire q (.lit c)).length ≤ br.remaining) (hfit : Fits b d s 1) :
    Decodes b d s br h [c] (wire q (.lit c)).length T := by
  obtain ⟨i, hi, v, hv, hm, hbase, hwire⟩ := literalCode_spec c
  simp only [wire, hwire, length_append, ofNat_length] at hr hrem ⊢
  obtain ⟨br', hread, hr', hrem'⟩ := readToken_spec hi hv hr hrem
  refine ⟨{ s with out := s.out ++ [c] }, br', ?_, rfl, hg.append hfit, hr', hrem'⟩
  simp only [decodeToken, hread, bind, Except.bind, hm, if_true, checkRoom_spec hg hfit, hbase]
  rw [UInt8.ofNat_toNat]

theorem decodeToken_run (hg : s.Good b d h) (hv : Valid (.run bs)) (hr : br.Reads (wire q (.run bs) ++ T))
    (hT : (q + (wire q (.run bs)).length + T.length) % 8 = 0) (hrem : (wire q (.run bs)).length ≤ br.remaining)
    (hfit : Fits b d s bs.length) : Decodes b d s br h bs (wire q (.run bs)).length T := by
  simp only [Valid, maxRun] at hv
  have hpad := padding_length (q + runHeaderBits)
  simp only [wire, length_append, runHeader_length, ofBytes_length] at hr hT hrem ⊢
  rw [append_assoc (runHeader _), append_assoc (runHeader _), runHeader, append_assoc] at hr
  obtain ⟨b1, hread, hr1, hrem1⟩ := readToken_spec (i := 1) (v := 0) (by decide) (by decide) hr (by
    simp only [runHeaderBits] at hrem
    change 5 + 5 ≤ _
    omega)
  change _ = br.remaining - (5 + 5) at hrem1
  simp only [runHeaderBits] at hrem hT hpad ⊢
  obtain ⟨b2, hcount, hr2, hrem2⟩ := BitReader.read_spec hr1 (by decide) (by omega) (by omega)
  have hlt : (BitWriter.padding (q + runHeaderBits)).length < 8 := by
    rw [BitWriter.padding, length_replicate]
    omega
  have hlength : (BitWriter.padding (q + (5 + 5 + 15))).length = (BitWriter.padding (q + runHeaderBits)).length := rfl
  obtain ⟨b3, hbytes, hr3, hrem3⟩ := BitReader.readAligned_spec hr2 (by omega) (by omega) (by omega) s.out
  refine ⟨{ s with out := s.out ++ bs }, b3, ?_, rfl, hg.append hfit, hr3, ?_⟩
  · simp only [decodeToken, hread, bind, Except.bind, hcount, checkRoom_spec hg hfit, hbytes]
    rfl
  · omega

theorem decodeToken_copy {distance length : ℕ} (hg : s.Good b d h) (hv : Valid (.copy distance length))
    (hle : distance ≤ d.p.history) (hc : IsCopy h distance length bs)
    (hr : br.Reads (wire q (.copy distance length) ++ T))
    (hrem : (wire q (.copy distance length)).length ≤ br.remaining) (hfit : Fits b d s bs.length) :
    Decodes b d s br h bs (wire q (.copy distance length)).length T := by
  obtain ⟨hd1, hdmax, h3, hmax⟩ := hv
  obtain ⟨i, hi, v, hv, hm, hbase, hwire⟩ := distanceCode_spec hdmax
  simp only [wire, hwire, length_append, ofNat_length] at hr hrem ⊢
  rw [append_assoc] at hr
  obtain ⟨b1, hread, hr1, hrem1⟩ := readToken_spec hi hv hr (by omega)
  obtain ⟨b2, hlength, hr2, hrem2⟩ := readLength_spec br.r.offset h3 hmax hr1 (by omega)
  obtain ⟨hgs, htracks⟩ := hg.sync
  have hring : distance ≤ s.sync.d.ring.length := by
    rw [htracks.length, hgs.p_eq]
    exact Nat.le_min.mpr ⟨hc.le, hle⟩
  have hroom : s.sync.d.checkRoom b s.sync.out.length length br.r.offset = .ok () := by
    refine checkRoom_spec hgs ?_ _
    rwa [hc.length] at hfit
  refine ⟨{ s.sync with out := s.sync.out ++ bs }, b2, ?_, rfl, hgs.append hfit, hr2, by omega⟩
  simp only [decodeToken, hread, bind, Except.bind, hm, hbase, hlength, Bool.true_eq_false, if_false,
    if_neg (show ¬ distance = 0 by omega), if_neg (Nat.not_lt.mpr hring), hroom,
    copyMatch_spec htracks hring hc]

theorem wire_pos (q : ℕ) {t : Tok UInt8} (hv : Valid t) : 0 < (wire q t).length := by
  have hpos : ∀ {i : ℕ}, i < tokens.length → 0 < (tokens.getD i noToken).prefixLength := by
    intro i hi
    rw [getD_eq_getElem _ _ hi]
    exact (tokens_widths _ (getElem_mem hi)).1
  cases t with
  | lit c =>
    obtain ⟨i, hi, v, _, _, _, hwire⟩ := literalCode_spec c
    have := hpos hi
    simp only [wire, hwire, length_append, ofNat_length]
    omega
  | run bs =>
    simp only [wire, length_append, runHeader_length, runHeaderBits]
    omega
  | copy distance length =>
    obtain ⟨i, hi, v, _, _, _, hwire⟩ := distanceCode_spec hv.2.1
    have := hpos hi
    simp only [wire, hwire, length_append, ofNat_length]
    omega

theorem decodeToken_spec {t : Tok UInt8} (hg : s.Good b d h) (hv : Valid t) (hn : Near d.p.history t)
    (hy : Yields h t bs) (hr : br.Reads (wire q t ++ T)) (hT : (q + (wire q t).length + T.length) % 8 = 0)
    (hrem : (wire q t).length ≤ br.remaining) (hfit : Fits b d s bs.length) :
    Decodes b d s br h bs (wire q t).length T := by
  cases t with
  | lit c =>
    subst hy
    exact decodeToken_lit hg hr hrem hfit
  | run bs' =>
    subst hy
    exact decodeToken_run hg hv hr hT hrem hfit
  | copy distance length => exact decodeToken_copy hg hv hn hy hr hrem hfit

/-- **The token loop decodes the bits of a valid stream to what the stream
stands for.** The padding behind them is not counted as remaining. -/
theorem decodeTokens_spec {ts : List (Tok UInt8)} {out : List UInt8} (he : Expands h ts out) :
    ∀ (fuel q : ℕ) (s : Progress) (br : BitReader) (pad : List Bool), s.Good b d h →
    (∀ t ∈ ts, Valid t ∧ Near d.p.history t) → br.Reads (wires q ts ++ pad) →
    br.remaining = (wires q ts).length → (q + (wires q ts).length + pad.length) % 8 = 0 → br.remaining < fuel →
    Fits b d s out.length →
    ∃ s', decodeTokens b fuel s br = .ok s' ∧ s'.out = s.out ++ out ∧ s'.Good b d (h ++ out) := by
  induction he with
  | nil h =>
    intro fuel q s br pad hg _ _ hrem _ hf _
    obtain ⟨fuel, rfl⟩ : ∃ f, fuel = f + 1 := ⟨fuel - 1, by omega⟩
    rw [wires, length_nil] at hrem
    refine ⟨s, ?_, by rw [append_nil], by rwa [append_nil]⟩
    rw [decodeTokens, if_neg (by omega)]
  | @cons h a rest t ts hy _ ih =>
    intro fuel q s br pad hg hts hr hrem h8 hf hfit
    obtain ⟨fuel, rfl⟩ : ∃ f, fuel = f + 1 := ⟨fuel - 1, by omega⟩
    rw [length_append] at hfit
    rw [wires, append_assoc] at hr
    simp only [wires, length_append] at hrem h8
    obtain ⟨hv, hn⟩ := hts t (mem_cons_self ..)
    have hpos := wire_pos q hv
    obtain ⟨s1, b1, h1, hout1, hg1, hr1, hrem1⟩ := decodeToken_spec hg hv hn hy hr
      (by rw [length_append]; omega) (by omega) ⟨by have := hfit.1; omega, by have := hfit.2; omega⟩
    obtain ⟨s2, h2, hout2, hg2⟩ := ih fuel _ s1 b1 pad hg1 (fun t ht => hts t (mem_cons_of_mem _ ht)) hr1
      (by omega) (by omega) (by omega) (by
        simp only [Fits, hout1, length_append] at hfit ⊢
        exact ⟨by omega, by omega⟩)
    refine ⟨s2, ?_, by rw [hout2, hout1, append_assoc], by rwa [append_assoc] at hg2⟩
    rw [decodeTokens, if_pos (by omega), h1]
    exact h2

/-! ### Decoding a segment -/

/-- What decoding a segment that stands for `data` does. -/
def DecodesTo (d : Decompressor) (seg : Reader) (out : List UInt8) (limit : ℕ) (e : Errc) (h data : List UInt8) :
    Prop :=
  ∃ d', d.decodeSegment seg out limit e = .ok (d', out ++ data) ∧ d'.Tracks (h ++ data) ∧
    d'.variant = d.variant ∧ d'.maxOutput = d.maxOutput

theorem decodeSegment_raw {data out : List UInt8} {o limit : ℕ} {e : Errc} (ht : d.Tracks h)
    (hseg : data.length ≤ d.p.maxSegment) (hlim : out.length + data.length ≤ limit) :
    DecodesTo d ⟨Writer.u8 d.p.type ++ data, o⟩ out limit e h data := by
  obtain ⟨h256, hmask, hraw, _⟩ := params_type d.variant
  change d.p.type &&& _ = d.p.type at hmask
  change d.p.type &&& _ = 0 at hraw
  obtain ⟨_, _, hle, _⟩ := params_bounds d.variant
  refine ⟨d.record data, ?_, record_spec ht (by simp only [p] at hseg ⊢; omega), rfl, rfl⟩
  have hroom : d.checkRoom ⟨out.length, limit, e⟩ out.length data.length (o + 1) = .ok () := by
    rw [checkRoom, if_neg (by simp only; omega), if_neg (by simp only; omega)]
  have hu8 := u8_append d.p.type data o h256
  simp only [decodeSegment, Writer.u8, hu8, bind, Except.bind, hmask, hraw, ne_eq, not_true, if_false, if_true, hroom]

theorem decodeSegment_compressed {body data out : List UInt8} {ts : List (Tok UInt8)} {o u limit : ℕ} {e : Errc}
    (ht : d.Tracks h) (hu : u ≤ 7) (hbody : ofBytes body = wires 0 ts ++ List.replicate u false)
    (hts : ∀ t ∈ ts, Valid t ∧ Near d.p.history t) (hexp : Expands h ts data)
    (hseg : data.length ≤ d.p.maxSegment) (hlim : out.length + data.length ≤ limit) :
    DecodesTo d ⟨Writer.u8 (d.p.type ||| packetCompressed) ++ (body ++ [UInt8.ofNat u]), o⟩ out limit e h data := by
  obtain ⟨_, _, _, h256, hmask, hcompressed⟩ := params_type d.variant
  change (d.p.type ||| _) &&& _ = d.p.type at hmask
  change (d.p.type ||| _) &&& _ ≠ 0 at hcompressed
  have hlen := congrArg List.length hbody
  simp only [ofBytes_length, length_append, length_replicate] at hlen
  have hgood : Progress.Good ⟨out.length, limit, e⟩ d ⟨d, out, out.length⟩ h :=
    ⟨⟨h, ht, by simp⟩, le_rfl, le_rfl, by simp, rfl, rfl⟩
  have hreads : BitReader.Reads ⟨⟨body, o + 1⟩, 0, 0, (wires 0 ts).length⟩ (wires 0 ts ++ List.replicate u false) :=
    ⟨by simp, by simp, [], rfl, by simp [ofNat_zero_right], by simp [hbody]⟩
  obtain ⟨s', hdec, hout, hg⟩ := decodeTokens_spec hexp ((wires 0 ts).length + 1) 0 ⟨d, out, out.length⟩ _
    (List.replicate u false) hgood hts hreads rfl (by rw [length_replicate]; omega) (by simp) ⟨by simp; omega, hlim⟩
  obtain ⟨hgs, htracks⟩ := hg.sync
  refine ⟨s'.sync.d, ?_, htracks, hgs.variant, hgs.maxOutput⟩
  have hu8 := u8_append (d.p.type ||| packetCompressed) (body ++ [UInt8.ofNat u]) o h256
  have hsub := sub_append (n := body.length) body [UInt8.ofNat u] (o + 1) rfl
  have htrailer : u8 ⟨[UInt8.ofNat u], o + 1 + body.length⟩ = .ok (u, ⟨[], o + 1 + body.length + 1⟩) := by
    have := u8_append u [] (o + 1 + body.length) (by omega)
    simpa [LittleEndian.leBytes] using this
  have hbits : body.length * 8 - u = (wires 0 ts).length := by omega
  simp only [decodeSegment, Writer.u8, hu8, bind, Except.bind, hmask, ne_eq, not_true, if_false, if_neg hcompressed]
  rw [if_neg (by simp)]
  simp only [remaining, length_append, length_singleton, Nat.add_sub_cancel, hsub, htrailer]
  rw [if_neg (by omega), if_neg (by omega)]
  simp only [hbits, hdec, hout]

/-! ### Decompressing a message -/

theorem maxSegment_bounds (d : Decompressor) : 1 ≤ d.p.maxSegment ∧ d.p.maxSegment ≤ 65535 :=
  ⟨(params_bounds d.variant).1, (params_bounds d.variant).2.1⟩

theorem decompress_single {d' : Decompressor} {seg out : List UInt8}
    (hseg : d.decodeSegment ⟨seg, 1⟩ [] d.maxOutput .limitExceeded = .ok (d', out)) :
    d.decompress (Writer.u8 descriptorSingle ++ seg) = .ok (out, d') := by
  have hu8 := u8_append descriptorSingle seg 0 (by decide)
  have hsub := sub_append seg [] 1 rfl
  rw [append_nil] at hsub
  simp only [decompress, Writer.u8, hu8, bind, Except.bind, if_true, remaining, hsub, hseg]

theorem decompress_multipart {d' : Decompressor} {segs out : List UInt8} {count : ℕ} (hcount : 1 ≤ count)
    (hcount16 : count < 65536) (hsize32 : out.length < 4294967296) (hout : out.length ≤ d.maxOutput)
    (hfit : out.length ≤ count * d.p.maxSegment) (hlen : 5 * count ≤ segs.length)
    (hsegs : decodeSegments out.length count d ⟨segs, 7⟩ [] = .ok (d', ⟨[], 7 + segs.length⟩, out)) :
    d.decompress (Writer.u8 descriptorMultipart ++ Writer.u16le count ++ Writer.u32le out.length ++ segs) =
      .ok (out, d') := by
  have hu8 := u8_append descriptorMultipart (Writer.u16le count ++ (Writer.u32le out.length ++ segs)) 0 (by decide)
  have hu16 := u16le_append count (Writer.u32le out.length ++ segs) 1 hcount16
  have hu32 := u32le_append out.length segs 3 hsize32
  simp only [Writer.u16le, Writer.u32le] at hu8 hu16 hu32
  simp only [decompress, Writer.u8, Writer.u16le, Writer.u32le, append_assoc, hu8, bind, Except.bind]
  rw [if_neg (by decide), if_neg (by simp)]
  simp only [hu16, hu32]
  rw [if_neg (by omega), if_neg (by omega), if_neg (by omega), if_neg (by simp only [remaining]; omega)]
  simp only [hsegs, expectEnd_nil, ne_eq, not_true, if_false]

end Decompressor

end Zgfx
end Codec
end Farland
