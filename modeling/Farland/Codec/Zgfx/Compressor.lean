/-
# The ZGFX compressor

`ZgfxCompressor::State` of `codec/zgfx.cpp`: a sliding window over the data
since the last reset, hash chains into it, greedy parsing into literals, runs
and copies, and the framing of segments. A failed assertion is `none`.
Positions in the stream are unbounded here (64 bits in the source); the hash
chains keep them modulo 2^32, as the source does.

A chain entry may be stale and point anywhere; the compressor's output only
depends on the window, because a candidate is used when its distance is in the
history and its bytes compare equal (`findMatch_spec`). Key theorem:
**`encodeSegment_spec`**, that a segment is raw or the bits of a stream that
stands for its data behind the history.
-/
import Farland.Codec.Zgfx.Format

namespace Farland
namespace Codec
namespace Zgfx

open Bits Lz77 List Writer BitWriter LittleEndian

variable {k limit a b history : ℕ} {w : List UInt8}

/-! ### Match finding -/

def hashBitsRdp8 : ℕ := 16
def hashBitsLite : ℕ := 12
def maxChain : ℕ := 16
def niceLength : ℕ := 128
def maxInsertLength : ℕ := 256
def tailInsert : ℕ := 16
def skipTrigger : ℕ := 5

def byteAt (w : List UInt8) (k : ℕ) : ℕ := (w.getD k 0).toNat

def hash3 (w : List UInt8) (k shift : ℕ) : ℕ :=
  let v := byteAt w k ||| (byteAt w (k + 1) <<< 8) ||| (byteAt w (k + 2) <<< 16)
  (v * 2654435761 % 2 ^ 32) >>> shift

def load64 (w : List UInt8) (k : ℕ) : ℕ := leValue ((w.drop k).take 8)

/-- `std::countr_zero` of a number below `2 ^ fuel`. -/
def countrZero : ℕ → ℕ → ℕ
  | 0, _ => 0
  | fuel + 1, x => if x % 2 = 1 then 0 else countrZero fuel (x / 2) + 1

/-- The byte loop of `common_length`. -/
def commonBytes (w : List UInt8) (a b limit : ℕ) : ℕ → ℕ → ℕ
  | 0, n => n
  | fuel + 1, n =>
    if n < limit ∧ w.getD (a + n) 0 = w.getD (b + n) 0 then commonBytes w a b limit fuel (n + 1) else n

/-- The word loop of `common_length`, then its byte loop. -/
def commonWords (w : List UInt8) (a b limit : ℕ) : ℕ → ℕ → ℕ
  | 0, n => commonBytes w a b limit limit n
  | fuel + 1, n =>
    if n + 8 ≤ limit then
      let x := load64 w (a + n) ^^^ load64 w (b + n)
      if x ≠ 0 then n + countrZero 64 x / 8 else commonWords w a b limit fuel (n + 8)
    else commonBytes w a b limit limit n

/-- Length of the common start of `w[a..]` and `w[b..]`, at most `limit`. -/
def commonLength (w : List UInt8) (a b limit : ℕ) : ℕ := commonWords w a b limit limit 0

def matchCost (distance length : ℕ) : ℕ :=
  let d := distanceCode distance
  d.token.length + d.value.length + (lengthCode length).length

def literalCost (bytes : List UInt8) : ℕ := (bytes.map fun b => (literalCode b).length).sum

/-- `std::bit_ceil`. -/
def bitCeil (n : ℕ) : ℕ := if n ≤ 1 then 1 else 2 ^ bitWidth (n - 1)

/-! ### The state -/

structure Compressor where
  variant : ZgfxVariant
  mode : ZgfxMode
  window : List UInt8 := []
  windowStart : ℕ := 0
  resetPos : ℕ := 0
  head : List ℕ := []
  chain : List ℕ := []
  chainMask : ℕ := 0
  insertPos : ℕ := 0
  deriving DecidableEq

structure Match where
  length : ℕ := 0
  distance : ℕ := 0
  deriving DecidableEq

namespace Compressor

variable (c : Compressor)

def p : Params := params c.variant

def hashBits : ZgfxVariant → ℕ
  | .rdp8 => hashBitsRdp8
  | .rdp8Lite => hashBitsLite

def hashShift : ℕ := 32 - hashBits c.variant

def maxWindow : ℕ := 2 * c.p.history + c.p.maxSegment

/-- A fresh compressor. -/
def new (variant : ZgfxVariant) (mode : ZgfxMode) : Compressor :=
  { variant := variant, mode := mode,
    head := if mode = .store then [] else List.replicate (2 ^ hashBits variant) 0 }

def windowEnd : ℕ := c.windowStart + c.window.length

def chainIndex (pos : ℕ) : ℕ := (pos - c.resetPos) &&& c.chainMask

def reset : Compressor :=
  { c with head := List.replicate c.head.length 0, window := [], windowStart := c.windowEnd,
           resetPos := c.windowEnd, insertPos := c.windowEnd }

/-- Slides the window if `n` more bytes would not fit. -/
def slide (n : ℕ) : Compressor :=
  if c.window.length + n > c.maxWindow then
    let keep := min c.window.length c.p.history
    let shift := c.window.length - keep
    { c with window := c.window.drop shift, windowStart := c.windowStart + shift }
  else c

/-- Grows the chains to what the window needs. -/
def growChain : Compressor :=
  let needed := bitCeil (min c.p.history (c.windowEnd - c.resetPos))
  if c.chain.length < needed then
    { c with chain := c.chain ++ List.replicate (needed - c.chain.length) 0, chainMask := needed - 1 }
  else c

variable (data : List UInt8)

/-- Appends one segment, sliding the window first if it would not fit. -/
def append : Compressor :=
  let c := c.slide data.length
  growChain { c with window := c.window ++ data }

def insert (pos : ℕ) : Compressor :=
  let h := hash3 c.window (pos - c.windowStart) c.hashShift
  { c with chain := c.chain.set (c.chainIndex pos) (c.head.getD h 0), head := c.head.set h ((pos + 1) % 2 ^ 32) }

/-- The first position that does not yet have 3 bytes in the window. -/
def hashableEnd : ℕ :=
  if c.window.length ≥ minMatch - 1 then c.windowEnd - (minMatch - 1) else c.windowStart

/-- Inserts the positions from `start` up to `stop` that have 3 bytes in the window. -/
def insertRange (start stop : ℕ) : Compressor :=
  (List.range' start (min stop c.hashableEnd - start)).foldl insert c

/-- The walk of `find_match` along a chain of at most `fuel` more entries. -/
def walk (pos at_ limit maxDistance : ℕ) : ℕ → ℕ → ℕ → Match → ℤ → Match
  | 0, _, _, best, _ => best
  | fuel + 1, entry, lastDistance, best, bestScore =>
    if entry = 0 then best
    else
      let distance := (pos % 2 ^ 32 + 2 ^ 32 - (entry - 1)) % 2 ^ 32
      if distance ≤ lastDistance ∨ distance > maxDistance then best
      else
        let cand := at_ - distance
        let entry := c.chain.getD (c.chainIndex (pos - distance)) 0
        if c.window.getD (cand + best.length) 0 ≠ c.window.getD (at_ + best.length) 0 then
          walk pos at_ limit maxDistance fuel entry distance best bestScore
        else
          let length := commonLength c.window cand at_ limit
          if length < minMatch then walk pos at_ limit maxDistance fuel entry distance best bestScore
          else
            let score : ℤ := 9 * length - matchCost distance length
            if score > bestScore then
              if length ≥ min limit niceLength then ⟨length, distance⟩
              else walk pos at_ limit maxDistance fuel entry distance ⟨length, distance⟩ score
            else walk pos at_ limit maxDistance fuel entry distance best bestScore

/-- Inserts `pos` and returns the best match there, if any (length 0 is none). -/
def findMatch (pos limit : ℕ) : Match × Compressor :=
  let at_ := pos - c.windowStart
  let h := hash3 c.window at_ c.hashShift
  let entry := c.head.getD h 0
  let c := { c with chain := c.chain.set (c.chainIndex pos) entry, head := c.head.set h ((pos + 1) % 2 ^ 32) }
  let maxDistance := min c.p.history (pos - c.resetPos)
  (c.walk pos at_ limit maxDistance maxChain entry 0 {} 0, c)

/-! ### Parsing a segment -/

/-- Literal bytes: as literal tokens, or as unencoded runs where cheaper.
`fuel` bounds the chunks. -/
def putLiterals : ℕ → BitWriter → List UInt8 → Option BitWriter
  | 0, bw, _ => some bw
  | fuel + 1, bw, bytes =>
    if bytes = [] then some bw
    else
      let chunk := bytes.take (min bytes.length maxRun)
      let bytes := bytes.drop chunk.length
      let pad := (8 - ((bw.pending + runHeaderBits) % 8)) % 8
      let runBits := runHeaderBits + pad + 8 * chunk.length
      if runBits < literalCost chunk then
        let zero := matchTokens.getD 0 noToken
        let bw := bw.put zero.prefixBits zero.prefixLength
        let bw := bw.put 0 zero.valueBits
        let bw := bw.put chunk.length 15
        match bw.align.bytes chunk with
        | some bw => putLiterals fuel bw bytes
        | none => none
      else putLiterals fuel (chunk.foldl (fun bw b => bw.putCode (literalCode b)) bw) bytes

/-- The window's bytes at positions from `start` up to `stop`. -/
def bytes (start stop : ℕ) : List UInt8 :=
  (c.window.drop (start - c.windowStart)).take (stop - start)

/-- Whether a match is worth its code. -/
def worth (pos : ℕ) (m : Match) : Bool :=
  m.length ≥ minMatch && (m.length ≥ 8 || matchCost m.distance m.length < literalCost (c.bytes pos (pos + m.length)))

/-- The parser's place in a segment. -/
structure Parser where
  c : Compressor
  bw : BitWriter
  pos : ℕ
  literals : ℕ
  misses : ℕ := 0

/-- The loop of `compress_segment`; `fuel` bounds its iterations, each of
which moves `pos`. -/
def parse (stop : ℕ) : ℕ → Parser → Option Parser
  | 0, s => some s
  | fuel + 1, s =>
    if s.pos + minMatch ≤ stop then
      let limit := min (stop - s.pos) maxMatch
      let f := s.c.findMatch s.pos limit
      let m := f.1
      let c := f.2
      if c.worth s.pos m = false then
        parse stop fuel ⟨c, s.bw, s.pos + (1 + ((s.misses + 1) >>> skipTrigger)), s.literals, s.misses + 1⟩
      else
        let run := c.bytes s.literals s.pos
        match putLiterals run.length s.bw run with
        | none => none
        | some bw =>
          let d := distanceCode m.distance
          let bw := ((bw.putCode d.token).putCode d.value).putCode (lengthCode m.length)
          let matchEnd := s.pos + m.length
          let first := if m.length ≤ maxInsertLength then s.pos + 1 else max (s.pos + 1) (matchEnd - tailInsert)
          parse stop fuel ⟨c.insertRange first matchEnd, bw, matchEnd, matchEnd, 0⟩
    else some s

/-- The bit stream for the segment from `start` up to `stop`, which is
already in the window. -/
def compressSegment (start stop : ℕ) (bw : BitWriter) : Option (Compressor × BitWriter) :=
  let c :=
    if start - c.insertPos < minMatch then
      let c := c.insertRange c.insertPos start
      { c with insertPos := max c.insertPos (min start c.hashableEnd) }
    else { c with insertPos := start }
  match parse stop (stop - start) ⟨c, bw, start, start, 0⟩ with
  | none => none
  | some s =>
    let run := s.c.bytes s.literals stop
    match putLiterals run.length s.bw run with
    | none => none
    | some bw => some ({ s.c with insertPos := max s.c.insertPos (min s.pos s.c.hashableEnd) }, bw)

def encodeSegment : Option (List UInt8 × Compressor) :=
  if data.length ≤ c.p.maxSegment then
    if c.mode = .store then some (u8 c.p.type ++ data, c)
    else
      let c := c.append data
      let stop := c.windowEnd
      match c.compressSegment (stop - data.length) stop {} with
      | none => none
      | some (c, bw) =>
        let scratch := bw.finish
        if scratch.length < data.length then some (u8 (c.p.type ||| packetCompressed) ++ scratch, c)
        else some (u8 c.p.type ++ data, c)
  else none

/-- The segments of a MULTIPART message, each behind its size; `fuel` bounds
their number. -/
def encodeSegments : ℕ → Compressor → List UInt8 → Option (List UInt8 × Compressor)
  | 0, c, _ => some ([], c)
  | fuel + 1, c, data =>
    if data = [] then some ([], c)
    else
      let segment := data.take (min data.length c.p.maxSegment)
      match c.encodeSegment segment with
      | none => none
      | some (out, c) =>
        match encodeSegments fuel c (data.drop segment.length) with
        | none => none
        | some (rest, c) => some (u32le out.length ++ out ++ rest, c)

/-- Compresses `data` into one RDP_SEGMENTED_DATA. -/
def compress : Option (List UInt8 × Compressor) :=
  if data.length ≤ zgfxMaxInputSize c.variant then
    if data = [] then
      some (u8 descriptorSingle ++ u8 (c.p.type ||| packetCompressed) ++ u8 0, c)
    else if data.length ≤ c.p.maxSegment then
      match c.encodeSegment data with
      | none => none
      | some (out, c) => some (u8 descriptorSingle ++ out, c)
    else
      let count := (data.length + c.p.maxSegment - 1) / c.p.maxSegment
      match encodeSegments data.length c data with
      | none => none
      | some (out, c) =>
        some (u8 descriptorMultipart ++ u16le count ++ u32le data.length ++ out, c)
  else none

end Compressor

/-! ### Matches compare equal -/

theorem countrZero_dvd : ∀ fuel x : ℕ, 2 ^ countrZero fuel x ∣ x
  | 0, x => one_dvd x
  | fuel + 1, x => by
    rw [countrZero]
    split_ifs with h
    · exact one_dvd x
    · obtain ⟨y, hy⟩ := countrZero_dvd fuel (x / 2)
      exact ⟨y, by rw [pow_succ, Nat.mul_right_comm, ← hy]; omega⟩

theorem countrZero_lt : ∀ {fuel x : ℕ}, x ≠ 0 → x < 2 ^ fuel → countrZero fuel x < fuel
  | 0, x, h0, h => absurd h (by simpa using h0)
  | fuel + 1, x, h0, h => by
    rw [countrZero]
    split_ifs with h1
    · omega
    · have := @countrZero_lt fuel (x / 2) (by omega) (by rw [pow_succ] at h; omega)
      omega

/-- Two 8-byte words agree in the bytes below the first bit that differs. -/
theorem take_eq_of_dvd_xor {a b : List UInt8} (ha : k ≤ a.length) (hb : k ≤ b.length)
    (h : 2 ^ (8 * k) ∣ leValue a ^^^ leValue b) : a.take k = b.take k := by
  refine take_eq_of_leValue_mod ha hb ?_
  have h0 := Nat.mod_eq_zero_of_dvd h
  rw [Nat.xor_mod_two_pow, Nat.xor_eq_zero_iff] at h0
  rwa [show 256 ^ k = 2 ^ (8 * k) by rw [pow_mul]; norm_num]

/-- The bytes from `a` and from `b` on agree for `n` bytes. -/
def Agree (w : List UInt8) (a b n : ℕ) : Prop := ∀ i < n, w[a + i]? = w[b + i]?

theorem Agree.add {n : ℕ} (h : Agree w a b n)
    (hk : ∀ i < k, w[a + n + i]? = w[b + n + i]?) : Agree w a b (n + k) := by
  intro i hi
  rcases Nat.lt_or_ge i n with h1 | h1
  · exact h i h1
  · have := hk (i - n) (by omega)
    rwa [show a + n + (i - n) = a + i by omega, show b + n + (i - n) = b + i by omega] at this

theorem getElem?_of_take_eq {x y : ℕ} (h : (w.drop x).take k = (w.drop y).take k) :
    ∀ i < k, w[x + i]? = w[y + i]? := by
  intro i hi
  have := congrArg (·[i]?) h
  simpa [getElem?_take_of_lt hi] using this

theorem commonBytes_spec (ha : a + limit ≤ w.length) (hb : b + limit ≤ w.length) :
    ∀ fuel n : ℕ, n ≤ limit → Agree w a b n →
      commonBytes w a b limit fuel n ≤ limit ∧ Agree w a b (commonBytes w a b limit fuel n)
  | 0, _, hn, h => ⟨hn, h⟩
  | fuel + 1, n, hn, h => by
    rw [commonBytes]
    split_ifs with hc
    · refine commonBytes_spec ha hb fuel (n + 1) hc.1 (h.add fun i hi => ?_)
      obtain rfl : i = 0 := by omega
      have h1 : a + n < w.length := by omega
      have h2 : b + n < w.length := by omega
      simpa [h1, h2] using hc.2
    · exact ⟨hn, h⟩

theorem commonWords_spec (ha : a + limit ≤ w.length) (hb : b + limit ≤ w.length) :
    ∀ fuel n : ℕ, n ≤ limit → Agree w a b n →
      commonWords w a b limit fuel n ≤ limit ∧ Agree w a b (commonWords w a b limit fuel n)
  | 0, n, hn, h => commonBytes_spec ha hb limit n hn h
  | fuel + 1, n, hn, h => by
    rw [commonWords]
    split_ifs with h8
    swap
    · exact commonBytes_spec ha hb limit n hn h
    have hla : ((w.drop (a + n)).take 8).length = 8 := by simp; omega
    have hlb : ((w.drop (b + n)).take 8).length = 8 := by simp; omega
    -- whichever number of bytes the words agree in extends the common start
    have hstep : ∀ k ≤ 8, 2 ^ (8 * k) ∣ load64 w (a + n) ^^^ load64 w (b + n) → Agree w a b (n + k) := by
      intro k hk hdvd
      have := take_eq_of_dvd_xor (by omega) (by omega) hdvd
      rw [take_take, take_take, Nat.min_eq_left hk] at this
      exact h.add (getElem?_of_take_eq this)
    simp only
    split_ifs with hx
    · have h64 : load64 w (a + n) ^^^ load64 w (b + n) < 2 ^ 64 := by
        have h1 := leValue_lt ((w.drop (a + n)).take 8)
        have h2 := leValue_lt ((w.drop (b + n)).take 8)
        rw [hla] at h1
        rw [hlb] at h2
        exact Nat.xor_lt_two_pow h1 h2
      have hlt := countrZero_lt hx h64
      refine ⟨by omega, hstep _ (by omega) ?_⟩
      exact (pow_dvd_pow 2 (by omega)).trans (countrZero_dvd 64 _)
    · refine commonWords_spec ha hb fuel (n + 8) h8 (hstep 8 le_rfl ?_)
      rw [not_not] at hx
      rw [hx]
      exact dvd_zero _

/-- Only bytes that compare equal are counted. -/
theorem commonLength_spec (ha : a + limit ≤ w.length) (hb : b + limit ≤ w.length) :
    commonLength w a b limit ≤ limit ∧ Agree w a b (commonLength w a b limit) :=
  commonWords_spec ha hb limit 0 (Nat.zero_le _) fun i hi => absurd hi (Nat.not_lt_zero i)

namespace Compressor

/-- The states a compressor goes through while it parses a segment: only its
hash chains change. -/
structure Keeps (c c' : Compressor) : Prop where
  variant : c'.variant = c.variant
  mode : c'.mode = c.mode
  window : c'.window = c.window
  windowStart : c'.windowStart = c.windowStart
  resetPos : c'.resetPos = c.resetPos

variable (c : Compressor)

theorem Keeps.refl : Keeps c c := ⟨rfl, rfl, rfl, rfl, rfl⟩

theorem Keeps.trans {a b c : Compressor} (h1 : Keeps a b) (h2 : Keeps b c) : Keeps a c :=
  ⟨h2.variant.trans h1.variant, h2.mode.trans h1.mode, h2.window.trans h1.window,
    h2.windowStart.trans h1.windowStart, h2.resetPos.trans h1.resetPos⟩

theorem insert_keeps (pos : ℕ) : Keeps c (c.insert pos) := ⟨rfl, rfl, rfl, rfl, rfl⟩

theorem foldl_insert_keeps : ∀ (ps : List ℕ) (c : Compressor), Keeps c (ps.foldl insert c)
  | [], c => .refl c
  | p :: ps, c => (insert_keeps c p).trans (foldl_insert_keeps ps (c.insert p))

theorem insertRange_keeps (start stop : ℕ) : Keeps c (c.insertRange start stop) :=
  foldl_insert_keeps _ c

/-- A usable match: none, or one within reach whose bytes compare equal. -/
def Usable (w : List UInt8) (at_ limit maxDistance : ℕ) (m : Match) : Prop :=
  m.length = 0 ∨ (1 ≤ m.distance ∧ m.distance ≤ maxDistance ∧ m.length ≤ limit ∧
    Agree w (at_ - m.distance) at_ m.length)

theorem walk_usable {c : Compressor} {pos at_ maxDistance : ℕ} (hw : at_ + limit ≤ c.window.length) :
    ∀ (fuel entry last : ℕ) (best : Match) (score : ℤ), Usable c.window at_ limit maxDistance best →
      Usable c.window at_ limit maxDistance (c.walk pos at_ limit maxDistance fuel entry last best score)
  | 0, _, _, _, _, h => h
  | fuel + 1, entry, last, best, score, h => by
    rw [walk]
    simp only
    split_ifs with h0 hd hne hshort hscore hnice
    · exact h
    · exact h
    · exact walk_usable hw fuel _ _ _ _ h
    · exact walk_usable hw fuel _ _ _ _ h
    · exact Or.inr ⟨by simp only; omega, by simp only; omega, commonLength_spec (by omega) hw⟩
    · exact walk_usable hw fuel _ _ _ _
        (Or.inr ⟨by simp only; omega, by simp only; omega, commonLength_spec (by omega) hw⟩)
    · exact walk_usable hw fuel _ _ _ _ h

theorem findMatch_spec (pos limit : ℕ) (hw : pos - c.windowStart + limit ≤ c.window.length) :
    Keeps c (c.findMatch pos limit).2 ∧
      Usable c.window (pos - c.windowStart) limit (min c.p.history (pos - c.resetPos)) (c.findMatch pos limit).1 :=
  ⟨⟨rfl, rfl, rfl, rfl, rfl⟩, walk_usable (c := (c.findMatch pos limit).2) hw maxChain _ 0 {} 0 (Or.inl rfl)⟩

/-! ### Writing tokens -/

theorem putCode_spec {bw : BitWriter} {c : Code} (hw : bw.pending < 8) (hc : c.Fits) :
    (bw.putCode c).pending < 8 ∧ (bw.putCode c).bits = bw.bits ++ c.wire :=
  ⟨bw.put_pending_lt _ _, bits_put hw hc.1 hc.2⟩

/-- The writer went from `bw` to `bw'` by writing tokens that stand for `bytes`
behind the history `h`. -/
def Emits (history : ℕ) (h : List UInt8) (bw bw' : BitWriter) (bytes : List UInt8) : Prop :=
  bw'.pending < 8 ∧ ∃ ts, bw'.bits = bw.bits ++ wires bw.bits.length ts ∧ Expands h ts bytes ∧
    ∀ t ∈ ts, Valid t ∧ Near history t

theorem Emits.refl {h : List UInt8} {bw : BitWriter} (hw : bw.pending < 8) :
    Emits history h bw bw [] :=
  ⟨hw, [], by simp [wires], .nil h, by simp⟩

theorem Emits.trans {h a b : List UInt8} {w1 w2 w3 : BitWriter} (h1 : Emits history h w1 w2 a)
    (h2 : Emits history (h ++ a) w2 w3 b) : Emits history h w1 w3 (a ++ b) := by
  obtain ⟨_, ts, hbits1, hexp1, hval1⟩ := h1
  obtain ⟨hp, us, hbits2, hexp2, hval2⟩ := h2
  refine ⟨hp, ts ++ us, ?_, hexp1.append hexp2, fun t ht => ?_⟩
  · rw [wires_append, hbits2, hbits1, append_assoc, length_append]
  · rcases mem_append.mp ht with h | h
    · exact hval1 t h
    · exact hval2 t h

theorem Emits.one {h bytes : List UInt8} {bw bw' : BitWriter} {t : Tok UInt8} (hw : bw'.pending < 8)
    (hbits : bw'.bits = bw.bits ++ wire bw.bits.length t) (hy : Yields h t bytes) (hv : Valid t) (hn : Near history t) :
    Emits history h bw bw' bytes :=
  ⟨hw, [t], by rw [wires_one, hbits], .one hy, by simpa using ⟨hv, hn⟩⟩

theorem literals_emits : ∀ (chunk h : List UInt8) (bw : BitWriter), bw.pending < 8 →
    Emits history h bw (chunk.foldl (fun bw b => bw.putCode (literalCode b)) bw) chunk
  | [], _, _, hw => .refl hw
  | b :: chunk, h, bw, hw => by
    obtain ⟨h1, h2⟩ := putCode_spec hw (literalCode_fits b)
    exact (Emits.one (t := .lit b) h1 h2 rfl trivial trivial).trans (literals_emits chunk _ _ h1)

theorem run_emits (history : ℕ) {chunk : List UInt8} (h : List UInt8) {bw : BitWriter} (hw : bw.pending < 8)
    (hc : chunk.length ≤ maxRun) : ∃ bw', (((bw.put (matchTokens.getD 0 noToken).prefixBits
      (matchTokens.getD 0 noToken).prefixLength).put 0 (matchTokens.getD 0 noToken).valueBits).put
      chunk.length 15).align.bytes chunk = some bw' ∧ Emits history h bw bw' chunk := by
  simp only [maxRun] at hc
  generalize h1 : bw.put (matchTokens.getD 0 noToken).prefixBits (matchTokens.getD 0 noToken).prefixLength = w1
  generalize h2 : w1.put 0 (matchTokens.getD 0 noToken).valueBits = w2
  generalize h3 : w2.put chunk.length 15 = w3
  have hp1 : w1.pending < 8 := h1 ▸ bw.put_pending_lt _ _
  have hp2 : w2.pending < 8 := h2 ▸ w1.put_pending_lt _ _
  have hp3 : w3.pending < 8 := h3 ▸ w2.put_pending_lt _ _
  have hb3 : w3.bits = bw.bits ++ runHeader chunk.length := by
    rw [← h3, bits_put hp2 (by omega) (by omega), ← h2, bits_put hp1 (by decide) (by decide), ← h1,
      bits_put hw (by decide) (by decide), runHeader]
    simp only [append_assoc]
  obtain ⟨hp4, hb4⟩ := align_spec hp3
  obtain ⟨bw', hbytes, hp5, hb5⟩ := bytes_spec hp4 chunk
  refine ⟨bw', hbytes, Emits.one (t := .run chunk) (by omega) ?_ rfl hc trivial⟩
  rw [hb5, hb4, hb3, length_append, runHeader_length, wire]
  simp only [append_assoc]

theorem putLiterals_spec (history : ℕ) : ∀ (fuel : ℕ) (bytes h : List UInt8) (bw : BitWriter), bw.pending < 8 →
    bytes.length ≤ fuel → ∃ bw', putLiterals fuel bw bytes = some bw' ∧ Emits history h bw bw' bytes
  | 0, bytes, h, bw, hw, hf => by
    rw [length_eq_zero_iff.mp (Nat.le_zero.mp hf)]
    exact ⟨bw, rfl, .refl hw⟩
  | fuel + 1, bytes, h, bw, hw, hf => by
    rw [putLiterals]
    split_ifs with hnil
    · exact ⟨bw, rfl, hnil ▸ .refl hw⟩
    have hpos : 0 < bytes.length := length_pos_iff.mpr hnil
    simp only
    generalize hchunk : bytes.take (min bytes.length maxRun) = chunk
    have hlen : chunk.length = min bytes.length maxRun := by
      rw [← hchunk, length_take]
      omega
    have hsplit : bytes = chunk ++ bytes.drop chunk.length := by
      rw [hlen, ← hchunk, take_append_drop]
    have hrest : (bytes.drop chunk.length).length ≤ fuel := by
      rw [length_drop, hlen]
      simp only [maxRun]
      omega
    -- whichever way the chunk went out, the rest follows it
    have hgo : ∀ w, Emits history h bw w chunk → ∃ bw', putLiterals fuel w (bytes.drop chunk.length) = some bw' ∧
        Emits history h bw bw' bytes := by
      intro w he
      obtain ⟨bw', h1, h2⟩ := putLiterals_spec history fuel (bytes.drop chunk.length) (h ++ chunk) w he.1 hrest
      refine ⟨bw', h1, ?_⟩
      rw [hsplit]
      exact he.trans h2
    split_ifs with hcost
    · obtain ⟨w, h1, h2⟩ := run_emits history h hw (show chunk.length ≤ maxRun by omega)
      rw [h1]
      exact hgo w h2
    · exact hgo _ (literals_emits chunk h bw hw)

/-! ### The window holds the history -/

/-- The window is the end of the stream `h` since the last reset, and holds a
whole history before the first `n` bytes of it end. -/
structure InWindow (c : Compressor) (h : List UInt8) (n : ℕ) : Prop where
  le : c.resetPos ≤ c.windowStart
  window : c.window = h.drop (c.windowStart - c.resetPos)
  reach : c.windowStart = c.resetPos ∨ c.p.history + (c.windowStart - c.resetPos) ≤ n
  len : n ≤ h.length

theorem Keeps.p_eq {c c' : Compressor} (hk : Keeps c c') : c'.p = c.p := by rw [p, hk.variant, p]

theorem Keeps.inWindow {c c' : Compressor} {h : List UInt8} {n : ℕ} (hk : Keeps c c') (hw : InWindow c h n) :
    InWindow c' h n :=
  ⟨by rw [hk.resetPos, hk.windowStart]; exact hw.le, by rw [hk.window, hk.windowStart, hk.resetPos]; exact hw.window,
    by rw [hk.windowStart, hk.resetPos, hk.p_eq]; exact hw.reach, hw.len⟩

theorem InWindow.windowEnd {c : Compressor} {h : List UInt8} {n : ℕ} (hw : InWindow c h n) :
    c.windowEnd = c.resetPos + h.length := by
  have h1 := hw.le
  have h3 := hw.len
  have h4 := congrArg List.length hw.window
  rw [length_drop] at h4
  rw [Compressor.windowEnd]
  rcases hw.reach with h2 | h2 <;> omega

theorem InWindow.bytes {c : Compressor} {h data : List UInt8} (hw : InWindow c (h ++ data) h.length) (i j : ℕ) :
    c.bytes (c.resetPos + h.length + i) (c.resetPos + h.length + j) = (data.drop i).take (j - i) := by
  have h1 := hw.le
  rw [Compressor.bytes, hw.window, drop_drop]
  have h2 : c.windowStart - c.resetPos + (c.resetPos + h.length + i - c.windowStart) = h.length + i := by
    rcases hw.reach with h2 | h2 <;> omega
  rw [h2, ← drop_drop, drop_left]
  congr 1
  omega

/-- A match found in the window is a copy out of the stream before it. -/
theorem isCopy_of_usable {c : Compressor} {h data : List UInt8} {m : Match}
    (hw : InWindow c (h ++ data) h.length) (hk : k ≤ data.length) (hlimit : k + limit ≤ data.length)
    (hu : Usable c.window (c.resetPos + h.length + k - c.windowStart) limit
      (min c.p.history (c.resetPos + h.length + k - c.resetPos)) m) (hm : minMatch ≤ m.length) :
    IsCopy (h ++ data.take k) m.distance m.length ((data.drop k).take m.length) ∧ m.distance ≤ c.p.history ∧
      1 ≤ m.distance ∧ m.length ≤ limit := by
  simp only [minMatch] at hm
  have hle := hw.le
  obtain hu | ⟨hd1, hdmax, hlen, hagree⟩ := hu
  · omega
  refine ⟨⟨hd1, by simp; omega, by simp; omega, fun i hi => ?_⟩, by omega, hd1, hlen⟩
  -- both sides are bytes of the stream, and the window holds them
  have hget : ∀ x, c.window[x]? = (h ++ data)[c.windowStart - c.resetPos + x]? := fun x => by
    rw [hw.window, getElem?_drop]
  have hstream : h ++ data.take k ++ (data.drop k).take m.length = (h ++ data).take (h.length + (k + m.length)) := by
    rw [take_length_add_append, take_add, append_assoc]
  have hreach : m.distance ≤ c.resetPos + h.length + k - c.windowStart := by
    rcases hw.reach with h2 | h2 <;> omega
  have hsrc := hagree i hi
  rw [hget, hget] at hsrc
  have hlen' : (h ++ data.take k).length = h.length + k := by simp; omega
  rw [hstream, hlen', getElem?_take_of_lt hi, getElem?_drop, getElem?_take_of_lt (by omega)]
  rw [show h.length + k - m.distance + i = c.windowStart - c.resetPos +
      (c.resetPos + h.length + k - c.windowStart - m.distance + i) by omega, hsrc,
    getElem?_append_right (by omega)]
  congr 1
  omega

/-! ### Parsing a segment writes its tokens -/

/-- The invariant of the parser: everything before `literals` is written. -/
structure Parser.Good (c : Compressor) (h data : List UInt8) (bw : BitWriter) (s : Parser) : Prop where
  keeps : Keeps c s.c
  emitted : ∃ l k, s.literals = c.resetPos + h.length + l ∧ s.pos = c.resetPos + h.length + k ∧ l ≤ k ∧
    l ≤ data.length ∧ Emits c.p.history h bw s.bw (data.take l)

variable {c : Compressor} {h data : List UInt8} {bw : BitWriter}

/-- One match: the literals before it, then its token. -/
theorem match_emits {s : Parser} {m : Match} {l : ℕ} {w : BitWriter} (hl : l ≤ k)
    (hhist : c.p.history < maxDistance) (he : Emits c.p.history h bw s.bw (data.take l))
    (hlit : Emits c.p.history (h ++ data.take l) s.bw w ((data.drop l).take (k - l)))
    (hcopy : IsCopy (h ++ data.take k) m.distance m.length ((data.drop k).take m.length))
    (hd : m.distance ≤ c.p.history) (h3 : minMatch ≤ m.length) (hmax : m.length ≤ maxMatch) :
    Emits c.p.history h bw (((w.putCode (distanceCode m.distance).token).putCode
      (distanceCode m.distance).value).putCode (lengthCode m.length)) (data.take (k + m.length)) := by
  have hlits : Emits c.p.history h bw w (data.take k) := by
    have := he.trans hlit
    rwa [← take_add, show l + (k - l) = k by omega] at this
  obtain ⟨hf1, hf2⟩ := distanceCode_fits (show m.distance < maxDistance by omega)
  obtain ⟨hp1, hb1⟩ := putCode_spec hlits.1 hf1
  obtain ⟨hp2, hb2⟩ := putCode_spec hp1 hf2
  obtain ⟨hp3, hb3⟩ := putCode_spec hp2 (lengthCode_fits h3 hmax)
  rw [take_add]
  refine hlits.trans (Emits.one (t := .copy m.distance m.length) hp3 ?_ hcopy ?_ hd)
  · rw [hb3, hb2, hb1, wire]
    simp only [append_assoc]
  · exact ⟨hcopy.pos, by omega, h3, hmax⟩

theorem parse_spec (hw : InWindow c (h ++ data) h.length) : ∀ (fuel : ℕ) (s : Parser), s.Good c h data bw →
    ∃ s', parse (c.resetPos + h.length + data.length) fuel s = some s' ∧ s'.Good c h data bw
  | 0, s, hs => ⟨s, rfl, hs⟩
  | fuel + 1, s, hs => by
    have hhist : c.p.history < maxDistance := (params_bounds c.variant).2.2.2
    obtain ⟨l, k, hlit, hpos, hlk, hl, he⟩ := hs.emitted
    have hk0 := hs.keeps
    rw [parse]
    split_ifs with hmore
    swap
    · exact ⟨s, rfl, hs⟩
    have hk3 : k + minMatch ≤ data.length := by omega
    simp only [minMatch] at hk3
    have hend := (hk0.inWindow hw).windowEnd
    rw [Compressor.windowEnd, hk0.resetPos, hk0.windowStart, length_append] at hend
    have hstart : c.windowStart ≤ s.pos := by
      rcases hw.reach with h2 | h2 <;> omega
    generalize hlim : min (c.resetPos + h.length + data.length - s.pos) maxMatch = limit
    obtain ⟨hk1, hu⟩ := findMatch_spec s.c s.pos limit (by
      rw [hk0.windowStart]
      omega)
    have hk2 := hk0.trans hk1
    simp only
    generalize s.c.findMatch s.pos limit = f at hu hk2 ⊢
    obtain ⟨m, c'⟩ := f
    simp only at hu hk2 ⊢
    rcases htake : c'.worth s.pos m with _ | _
    · generalize (s.misses + 1) >>> skipTrigger = jump
      refine parse_spec hw fuel _ ⟨hk2, l, k + (1 + jump), hlit, ?_, by omega, hl, he⟩
      simp only
      omega
    simp only [worth, Bool.and_eq_true, decide_eq_true_eq] at htake
    have h3 := htake.1
    rw [hk0.window, hk0.windowStart, hk0.p_eq, hk0.resetPos, hpos] at hu
    obtain ⟨hcopy, hd, hd1, hmle⟩ := isCopy_of_usable hw (by omega) (by omega) hu h3
    have hrun : c'.bytes s.literals s.pos = (data.drop l).take (k - l) := by
      have := (hk2.inWindow hw).bytes l k
      rwa [hk2.resetPos, ← hlit, ← hpos] at this
    rw [hrun]
    obtain ⟨w, hput, hlits⟩ := putLiterals_spec c.p.history _ ((data.drop l).take (k - l))
      (h ++ data.take l) s.bw he.1 le_rfl
    rw [hput]
    refine parse_spec hw fuel _ ⟨hk2.trans (insertRange_keeps _ _ _), k + m.length, k + m.length, ?_, ?_,
      le_rfl, by omega, ?_⟩
    · simp only
      omega
    · simp only
      omega
    · exact match_emits hlk hhist he hlits hcopy hd h3 (by omega)

theorem compressSegment_spec (hw : InWindow c (h ++ data) h.length) (bw : BitWriter) (hbw : bw.pending < 8) :
    ∃ c' bw', c.compressSegment (c.resetPos + h.length) (c.resetPos + h.length + data.length) bw = some (c', bw') ∧
      Keeps c c' ∧ Emits c.p.history h bw bw' data := by
  rw [compressSegment]
  generalize hc1 : (if c.resetPos + h.length - c.insertPos < minMatch then
      { c.insertRange c.insertPos (c.resetPos + h.length) with
        insertPos := max (c.insertRange c.insertPos (c.resetPos + h.length)).insertPos
          (min (c.resetPos + h.length) (c.insertRange c.insertPos (c.resetPos + h.length)).hashableEnd) }
    else { c with insertPos := c.resetPos + h.length }) = c1
  have hk1 : Keeps c c1 := by
    rw [← hc1]
    split_ifs
    · exact (insertRange_keeps c _ _).trans ⟨rfl, rfl, rfl, rfl, rfl⟩
    · exact ⟨rfl, rfl, rfl, rfl, rfl⟩
  obtain ⟨s, hparse, hgood⟩ := parse_spec hw (c.resetPos + h.length + data.length - (c.resetPos + h.length))
    ⟨c1, bw, c.resetPos + h.length, c.resetPos + h.length, 0⟩
    ⟨hk1, 0, 0, rfl, rfl, le_rfl, Nat.zero_le _, by simpa using Emits.refl hbw⟩
  rw [hparse]
  obtain ⟨l, _, hlit, _, _, hl, he⟩ := hgood.emitted
  have hrun : s.c.bytes s.literals (c.resetPos + h.length + data.length) = data.drop l := by
    have := (hgood.keeps.inWindow hw).bytes l data.length
    rw [hgood.keeps.resetPos, ← hlit] at this
    rw [this, take_of_length_le (by rw [length_drop])]
  obtain ⟨bw', hput, hrest⟩ := putLiterals_spec c.p.history _ (data.drop l) (h ++ data.take l) s.bw he.1 le_rfl
  simp only [hrun, hput]
  refine ⟨_, bw', rfl, hgood.keeps.trans ⟨rfl, rfl, rfl, rfl, rfl⟩, ?_⟩
  have := he.trans hrest
  rwa [take_append_drop] at this

/-! ### Segments -/

/-- What a compressor keeps between segments: in compressing mode its window
is the end of the stream `h` since the last reset, and a history long. -/
def Tracks (c : Compressor) (h : List UInt8) : Prop := c.mode = .compress → InWindow c h h.length

theorem new_tracks (variant : ZgfxVariant) (mode : ZgfxMode) : (new variant mode).Tracks [] :=
  fun _ => ⟨le_rfl, rfl, Or.inl rfl, le_rfl⟩

theorem reset_tracks (c : Compressor) : c.reset.Tracks [] :=
  fun _ => ⟨le_rfl, by simp [reset], Or.inl rfl, le_rfl⟩

theorem growChain_keeps (c : Compressor) : Keeps c c.growChain := by
  rw [growChain]
  split_ifs <;> exact ⟨rfl, rfl, rfl, rfl, rfl⟩

/-- Sliding keeps a history before the segment. -/
theorem slide_inWindow (hw : InWindow c h h.length) (n : ℕ) :
    InWindow (c.slide n) h h.length ∧ (c.slide n).variant = c.variant ∧ (c.slide n).mode = c.mode ∧
      (c.slide n).resetPos = c.resetPos := by
  have hle := hw.le
  have hlen := congrArg List.length hw.window
  rw [length_drop] at hlen
  rw [slide]
  split_ifs
  · refine ⟨⟨?_, ?_, ?_, le_rfl⟩, rfl, rfl, rfl⟩
    · simp only
      omega
    · simp only
      rw [hw.window, drop_drop]
      congr 1
      omega
    · change _ ∨ c.p.history + _ ≤ _
      simp only
      rcases hw.reach with h2 | h2 <;> omega
  · exact ⟨hw, rfl, rfl, rfl⟩

theorem append_inWindow (hw : InWindow c h h.length) (data : List UInt8) :
    InWindow (c.append data) (h ++ data) h.length ∧ (c.append data).variant = c.variant ∧
      (c.append data).mode = c.mode := by
  obtain ⟨hs, hv, hm, _⟩ := slide_inWindow hw data.length
  have hgrown := growChain_keeps { c.slide data.length with window := (c.slide data.length).window ++ data }
  refine ⟨hgrown.inWindow ⟨hs.le, ?_, hs.reach, by simp⟩, hgrown.variant.trans hv, hgrown.mode.trans hm⟩
  have hle : (c.slide data.length).windowStart - (c.slide data.length).resetPos ≤ h.length := by
    rcases hs.reach with h2 | h2 <;> omega
  change _ = List.drop ((c.slide data.length).windowStart - (c.slide data.length).resetPos) (h ++ data)
  rw [drop_append_of_le_length hle, ← hs.window]

/-- The encodings of a segment that stand for `data` behind the history. -/
def Encodes (pr : Params) (h data out : List UInt8) : Prop :=
  out = u8 pr.type ++ data ∨
    ∃ ts body u, out = u8 (pr.type ||| packetCompressed) ++ (body ++ [UInt8.ofNat u]) ∧ u ≤ 7 ∧
      ofBytes body = wires 0 ts ++ List.replicate u false ∧ (∀ t ∈ ts, Valid t ∧ Near pr.history t) ∧
      Expands h ts data

/-- **A segment is written raw, or as the bits of a token stream that stands
for it behind the history.** -/
theorem encodeSegment_spec (ht : c.Tracks h) (data : List UInt8) (hlen : data.length ≤ c.p.maxSegment) :
    ∃ out c', c.encodeSegment data = some (out, c') ∧ Encodes c.p h data out ∧
      out.length ≤ data.length + 1 ∧ 1 ≤ out.length ∧ c'.Tracks (h ++ data) ∧ c'.variant = c.variant ∧
      c'.mode = c.mode := by
  rw [encodeSegment]
  split_ifs with hmode
  · exact ⟨_, c, rfl, Or.inl rfl, by simp; omega, by simp, fun h => absurd (hmode.symm.trans h) (by decide), rfl, rfl⟩
  have hcompress : c.mode = .compress := by
    rcases hm : c.mode with _ | _
    · rfl
    · exact absurd hm hmode
  obtain ⟨hw, hv, hm⟩ := append_inWindow (ht hcompress) data
  have hend := hw.windowEnd
  rw [length_append, ← Nat.add_assoc] at hend
  have hp : (c.append data).p = c.p := by rw [p, hv, p]
  obtain ⟨c', bw, hseg, hk, he⟩ := compressSegment_spec hw {} (by simp)
  simp only [hend, Nat.add_sub_cancel, hseg]
  have hp' : c'.p = c.p := by rw [hk.p_eq, hp]
  have htracks : c'.Tracks (h ++ data) := by
    intro _
    have := hk.inWindow hw
    exact ⟨this.le, this.window, by
      have := this.reach
      rw [length_append]
      omega, le_rfl⟩
  obtain ⟨ts, hbits, hexp, hval⟩ := he.2
  obtain ⟨body, u, hfin, hu, hbody⟩ := finish_spec he.1
  rw [bits_empty, nil_append, length_nil] at hbits
  split_ifs with hshort
  · refine ⟨_, c', rfl, Or.inr ⟨ts, body, u, by rw [hfin, hp'], hu, by rw [hbody, hbits], ?_, hexp⟩, by simp; omega,
      by simp, htracks, hk.variant.trans hv, hk.mode.trans hm⟩
    rwa [hp] at hval
  · exact ⟨_, c', rfl, Or.inl (by rw [hp']), by simp; omega, by simp, htracks, hk.variant.trans hv, hk.mode.trans hm⟩

end Compressor

end Zgfx
end Codec
end Farland
