/-
# The ZGFX decompressor refines plain LZ77

A decoder that keeps everything it ever put out and finds a match by going back
in that list, byte by byte; its bit streams are lists of bits. The decompressor
with its ring, its bit buffer and its rules gives the same bytes, or an error
where the reference has none, for every input, and breaks no rule on the way.

Key theorems: `token_agrees`, `decodeBits_agrees`, **`run_refines`**.
-/
import Farland.Codec.Zgfx.Checked

namespace Farland
namespace Codec
namespace Zgfx

open Bits Lz77 List Reader BitReader
open Checked (Agrees lift rule)

/-! ### The reference -/

/-- All output since the last reset. -/
structure Reference where
  variant : ZgfxVariant
  maxOutput : ℕ
  history : List UInt8 := []
  deriving DecidableEq

namespace Reference

variable (r : Reference)

def p : Params := params r.variant

def reset : Reference := { r with history := [] }

/-- The next `count` bits as a number. -/
def number (count : ℕ) (bits : List Bool) : Option (ℕ × List Bool) :=
  if count ≤ bits.length then some (toNat (bits.take count), bits.drop count) else none

/-- The token whose prefix comes next, and its value. -/
def token (bits : List Bool) : Option (Token × ℕ × List Bool) := do
  let token ← tokens.find? fun t => (ofNat t.prefixLength t.prefixBits).isPrefixOf bits
  let (value, bits) ← number token.valueBits (bits.drop token.prefixLength)
  some (token, value, bits)

/-- Ones, at most `most` of them, and a zero. -/
def ones : ℕ → List Bool → Option (ℕ × List Bool)
  | _, [] => none
  | _, false :: bits => some (0, bits)
  | 0, true :: _ => none
  | most + 1, true :: bits => (ones most bits).map fun r => (r.1 + 1, r.2)

/-- Match length: `k` ones and a zero, then `k + 1` value bits. -/
def matchLength (bits : List Bool) : Option (ℕ × List Bool) := do
  let (k, bits) ← ones maxLengthOnes bits
  if k = 0 then some (minMatch, bits)
  else do
    let (extra, bits) ← number (k + 1) bits
    some (2 ^ (k + 1) + extra, bits)

/-- `count` whole bytes behind the rest of the current one; `unused` bits
follow the stream in its last byte. -/
def wholeBytes (unused count : ℕ) (bits : List Bool) : Option (List UInt8 × List Bool) :=
  let bits := bits.drop ((bits.length + unused) % 8)
  if 8 * count ≤ bits.length then some (toBytes (bits.take (8 * count)), bits.drop (8 * count)) else none

/-- Room for `more` bytes behind `have_` of a message, in its segment and in
all. -/
def room (start limit have_ more : ℕ) : Option Unit :=
  if have_ + more ≤ start + r.p.maxSegment ∧ have_ + more ≤ limit then some () else none

/-- What the next token puts out behind `out`. -/
def step (start limit unused : ℕ) (out : List UInt8) (bits : List Bool) :
    Option (List UInt8 × List Bool) := do
  let (token, value, bits) ← token bits
  if token.isMatch = false then do
    r.room start limit out.length 1
    some (out ++ [UInt8.ofNat (token.base + value)], bits)
  else
    let distance := token.base + value
    if distance = 0 then do
      let (count, bits) ← number 15 bits
      r.room start limit out.length count
      let (run, bits) ← wholeBytes unused count bits
      some (out ++ run, bits)
    else do
      let (length, bits) ← matchLength bits
      if distance > min r.p.history (r.history ++ out).length then none
      else do
        r.room start limit out.length length
        some (out ++ copy distance length (r.history ++ out), bits)

/-- A token takes a bit at least. -/
def decodeBits (r : Reference) (start limit unused : ℕ) : ℕ → List UInt8 → List Bool → Option (List UInt8)
  | 0, _, _ => none
  | fuel + 1, out, bits =>
    if bits.length > 0 then do
      let next ← r.step start limit unused out bits
      r.decodeBits start limit unused fuel next.1 next.2
    else some out

/-- One segment behind `out`. -/
def decodeSegment (seg : Reader) (out : List UInt8) (limit : ℕ) : Option (List UInt8) := do
  let (header, seg) ← (u8 seg).toOption
  if header &&& compressionTypeMask ≠ r.p.type then none
  else if header &&& packetCompressed = 0 then do
    r.room out.length limit out.length seg.rest.length
    some (out ++ seg.rest)
  else if seg.rest = [] then none
  else do
    let (stream, seg) ← (sub (seg.remaining - 1) seg).toOption
    let (unused, _) ← (u8 seg).toOption
    if unused > 7 then none
    else if unused > stream.rest.length * 8 then none
    else
      let bits := (ofBytes stream.rest).take (stream.rest.length * 8 - unused)
      r.decodeBits out.length limit unused (bits.length + 1) out bits

def decodeSegments (r : Reference) (size : ℕ) : ℕ → Reader → List UInt8 → Option (Reader × List UInt8)
  | 0, reader, out => some (reader, out)
  | count + 1, reader, out => do
    let (segmentSize, reader) ← (u32le reader).toOption
    let (segment, reader) ← (sub segmentSize reader).toOption
    let out ← r.decodeSegment segment out size
    r.decodeSegments size count reader out

/-- The output of a message. -/
def decode (data : List UInt8) : Option (List UInt8) := do
  let reader : Reader := ⟨data, 0⟩
  let (descriptor, reader) ← (u8 reader).toOption
  if descriptor = descriptorSingle then do
    let (segment, _) ← (sub reader.remaining reader).toOption
    r.decodeSegment segment [] r.maxOutput
  else if descriptor ≠ descriptorMultipart then none
  else do
    let (count, reader) ← (u16le reader).toOption
    let (size, reader) ← (u32le reader).toOption
    if count = 0 then none
    else if size > r.maxOutput then none
    else if size > count * r.p.maxSegment then none
    else if count > reader.remaining / 5 then none
    else do
      let (reader, out) ← r.decodeSegments size count reader []
      let _ ← (expectEnd "" reader).toOption
      if out.length ≠ size then none else some out

/-- A message decoded is part of the history. -/
def decompress (data : List UInt8) : Option (List UInt8 × Reference) :=
  (r.decode data).map fun out => (out, { r with history := r.history ++ out })

end Reference

/-! ### Bits -/

/-- The buffer is in front of `bits`; behind the stream, `unused` bits fill up
the last byte. -/
structure Streams (unused : ℕ) (br : BitReader) (bits : List Bool) : Prop where
  reads : ∃ pad, br.Reads (bits ++ pad) ∧ (bits = [] ∨ pad.length = unused)
  remaining : br.remaining = bits.length

theorem ruled_error {α : Type} {e : Error} (h : e.code ≠ .io) :
    ruled (.error e : Result α) = ExceptT.mk (some (.error e)) := by
  unfold ruled
  dsimp only
  rw [if_neg h]
  rfl

/-- Results are the same on both sides where they are not rules. -/
theorem ruled_agrees {α : Type} {x : Result α} (h : ∀ e, x = .error e → e.code ≠ .io) :
    Agrees (ruled x) x.toOption Eq := by
  rcases x with e | a
  · exact ⟨e, ruled_error (h e rfl)⟩
  · exact ⟨a, rfl, rfl⟩

theorem skip_fails {br : BitReader} {count : ℕ} (h : br.remaining < count) :
    ∃ e : Error, br.skip count = .error e ∧ e.code ≠ .io := by
  refine ⟨⟨.truncated, "ZGFX token runs past the end of the bit stream", br.r.offset⟩, ?_, nofun⟩
  rw [BitReader.skip, if_pos h]
  rfl

theorem Streams.skip {unused count : ℕ} {br : BitReader} {bits : List Bool} (h : Streams unused br bits)
    (hcount : count ≤ bits.length) (hbuf : count ≤ br.buffered) :
    ∃ br', br.skip count = .ok br' ∧ Streams unused br' (bits.drop count) := by
  obtain ⟨pad, hreads, hpad⟩ := h.reads
  obtain ⟨br', hskip, hreads', hrem⟩ := skip_spec hreads count (by rw [h.remaining]; exact hcount) hbuf
  refine ⟨br', hskip, ⟨pad, ?_, ?_⟩, by rw [hrem, h.remaining, length_drop]⟩
  · rwa [drop_append_of_le_length hcount] at hreads'
  · refine hpad.imp (fun hnil => ?_) id
    rw [hnil, drop_nil]

/-- **A number**, read from the buffer or from the list. -/
theorem number_agrees {unused count : ℕ} {br : BitReader} {bits : List Bool} (h : Streams unused br bits)
    (hcount : count ≤ 32) : Agrees (ruled (br.read count)) (Reference.number count bits)
      fun x y => x.1 = y.1 ∧ Streams unused x.2 y.2 := by
  unfold Reference.number
  rcases eq_zero_or_pos count with rfl | hpos
  · exact ⟨(0, br), rfl, rfl, h⟩
  obtain ⟨pad, hreads, hpad⟩ := h.reads
  obtain ⟨b1, hpeek, hreads1, hrem1, hbuf1⟩ := BitReader.peek_spec hreads count hcount
  have h1 : Streams unused b1 bits := ⟨⟨pad, hreads1, hpad⟩, hrem1.trans h.remaining⟩
  rw [BitReader.read, if_neg (by omega)]
  dsimp only
  rw [hpeek]
  split_ifs with hle
  · rw [length_append] at hbuf1
    obtain ⟨b2, hskip, h2⟩ := h1.skip hle (by omega)
    rw [hskip]
    refine ⟨_, rfl, ?_, h2⟩
    rw [append_assoc, take_append_of_le_length hle]
  · obtain ⟨e, he, hcode⟩ := skip_fails (show b1.remaining < count by rw [h1.remaining]; omega)
    rw [he]
    exact ⟨e, ruled_error hcode⟩

theorem ruled_bind {α β : Type} (x : Result α) (f : α → Result β) :
    ruled (x >>= f) = ruled x >>= fun a => ruled (f a) := by
  rcases x with e | a
  · show ruled (.error e) = _
    unfold ruled
    dsimp only
    split_ifs <;> rfl
  · rfl

/-! ### Tokens -/

open Decompressor

theorem tokenLookup_cases : ∀ v < 2 ^ lookupBits, tokenLookup v = reservedToken ∨ tokenLookup v < tokens.length ∧
    (tokens.getD (tokenLookup v) noToken).first ≤ v ∧ v < (tokens.getD (tokenLookup v) noToken).stop := by
  decide +kernel

/-- Nine bits in the range of a token start with its prefix. -/
theorem prefix_of_range {t : Token} (ht : t ∈ tokens) {bits : List Bool} (hbits : bits.length = lookupBits)
    (h1 : t.first ≤ toNat bits) (h2 : toNat bits < t.stop) : ofNat t.prefixLength t.prefixBits <+: bits := by
  obtain ⟨_, h8, _, hlt⟩ := tokens_widths t ht
  have htake : (bits.take t.prefixLength).length = t.prefixLength := by
    rw [length_take, hbits, lookupBits]
    omega
  have hdrop : (bits.drop t.prefixLength).length = lookupBits - t.prefixLength := by rw [length_drop, hbits]
  have hsplit := toNat_append (bits.take t.prefixLength) (bits.drop t.prefixLength)
  have hrest := toNat_lt (bits.drop t.prefixLength)
  rw [take_append_drop, hdrop] at hsplit
  rw [hdrop] at hrest
  rw [Token.stop, Token.first] at h2
  rw [Token.first] at h1
  have hle : toNat (bits.take t.prefixLength) < t.prefixBits + 1 := by
    by_contra hge
    have := Nat.mul_le_mul_right (2 ^ (lookupBits - t.prefixLength)) (Nat.not_lt.mp hge)
    rw [Nat.succ_mul] at this
    omega
  have hge : t.prefixBits < toNat (bits.take t.prefixLength) + 1 := by
    by_contra hlt'
    have := Nat.mul_le_mul_right (2 ^ (lookupBits - t.prefixLength)) (Nat.not_lt.mp hlt')
    rw [Nat.succ_mul] at this
    omega
  have hvalue : t.prefixBits = toNat (bits.take t.prefixLength) := by omega
  have hpre : ofNat t.prefixLength t.prefixBits = bits.take t.prefixLength := by
    have hback := ofNat_toNat (bits.take t.prefixLength)
    rwa [htake, ← hvalue] at hback
  rw [hpre]
  exact take_prefix _ _

/-- The lookup of the next bits, where a token's prefix stands in front. -/
theorem tokenLookup_of_code {i : ℕ} (hi : i < tokens.length) {bits : List Bool}
    (h : ofNat (tokens.getD i noToken).prefixLength (tokens.getD i noToken).prefixBits <+: bits) :
    tokenLookup (toNat ((bits ++ List.replicate lookupBits false).take lookupBits)) = i := by
  obtain ⟨rest, rfl⟩ := h
  exact tokenLookup_peek hi rest

theorem find_token {i : ℕ} (hi : i < tokens.length) {bits : List Bool}
    (h : ofNat (tokens.getD i noToken).prefixLength (tokens.getD i noToken).prefixBits <+: bits) :
    tokens.find? (fun t => (ofNat t.prefixLength t.prefixBits).isPrefixOf bits) = some (tokens.getD i noToken) := by
  have hmem : tokens.getD i noToken ∈ tokens := by
    rw [getD_eq_getElem _ _ hi]
    exact getElem_mem hi
  rcases hfind : tokens.find? (fun t => (ofNat t.prefixLength t.prefixBits).isPrefixOf bits) with _ | t
  · exact absurd ( isPrefixOf_iff_prefix.mpr h) (find?_eq_none.mp hfind _ hmem)
  · obtain ⟨j, hj, rfl⟩ := getElem_of_mem (mem_of_find?_eq_some hfind)
    have hfound := find?_some hfind
    have hpre : ofNat tokens[j].prefixLength tokens[j].prefixBits <+: bits := isPrefixOf_iff_prefix.mp hfound
    rw [← getD_eq_getElem _ noToken hj] at hpre
    have hsame : j = i := (tokenLookup_of_code hj hpre).symm.trans (tokenLookup_of_code hi h)
    subst hsame
    rw [getD_eq_getElem _ noToken hj]
    exact hfind

variable {unused : ℕ} {br : BitReader} {bits : List Bool}

/-- **A token**, looked up in the buffer or searched for in the list. -/
theorem token_agrees (h : Streams unused br bits) : Agrees (readTokenChecked br) (Reference.token bits)
    fun x y => x.1 = y.1 ∧ x.2.1 = y.2.1 ∧ Streams unused x.2.2 y.2.2 := by
  obtain ⟨pad, hreads, hpad⟩ := h.reads
  obtain ⟨b1, hpeek, hreads1, hrem1, hbuf1⟩ := peek_spec hreads lookupBits (by decide)
  have h1 : Streams unused b1 bits := ⟨⟨pad, hreads1, hpad⟩, hrem1.trans h.remaining⟩
  rw [length_append] at hbuf1
  generalize hnine : ((bits ++ pad) ++ List.replicate lookupBits false).take lookupBits = nine at hpeek
  have hlength : nine.length = lookupBits := by
    rw [← hnine, length_take, length_append, length_replicate]
    omega
  have hlt : toNat nine < 2 ^ lookupBits := hlength ▸ toNat_lt nine
  have hcases := tokenLookup_cases _ hlt
  have hrange : tokenInRange br = true := by
    unfold tokenInRange
    rw [hpeek]
    exact decide_eq_true ⟨hlt, fun hne => (hcases.resolve_left hne).1⟩
  refine Agrees.rule hrange ?_
  unfold readToken Reference.token
  dsimp only
  rw [hpeek]
  rcases hcases with hreserved | ⟨hi, hfirst, hstop⟩
  · -- nothing starts with these bits
    rw [if_pos hreserved]
    have hnone : tokens.find? (fun t => (ofNat t.prefixLength t.prefixBits).isPrefixOf bits) = none := by
      refine find?_eq_none.mpr fun t ht hpre => ?_
      obtain ⟨i, hi, rfl⟩ := getElem_of_mem ht
      have hin := ( isPrefixOf_iff_prefix.mp hpre).trans (prefix_append bits pad)
      rw [← getD_eq_getElem _ noToken hi] at hin
      have hfound := tokenLookup_of_code hi hin
      rw [hnine, hreserved] at hfound
      rw [← hfound] at hi
      exact absurd hi (by decide)
    rw [hnone]
    exact ⟨_, ruled_error fun h => by cases h⟩
  · have hne : tokenLookup (toNat nine) ≠ reservedToken := by
      intro heq
      rw [heq] at hi
      exact absurd hi (by decide)
    rw [if_neg hne]
    generalize hlookup : tokenLookup (toNat nine) = i at hi hfirst hstop hne
    have hmem : tokens.getD i noToken ∈ tokens := by
      rw [getD_eq_getElem _ _ hi]
      exact getElem_mem hi
    obtain ⟨_, h8, h21, _⟩ := tokens_widths _ hmem
    have hpre := prefix_of_range hmem hlength hfirst hstop
    by_cases hfits : (tokens.getD i noToken).prefixLength ≤ bits.length
    · have hin : ofNat (tokens.getD i noToken).prefixLength (tokens.getD i noToken).prefixBits <+: bits := by
        refine prefix_of_prefix_length_le (hpre.trans ?_)
          (prefix_append bits (pad ++ List.replicate lookupBits false)) ?_
        · rw [← hnine, append_assoc]
          exact take_prefix _ _
        · rw [ofNat_length]
          exact hfits
      obtain ⟨b2, hskip, h2⟩ := h1.skip hfits (by simp only [lookupBits] at hbuf1; omega)
      rw [find_token hi hin, hskip]
      show Agrees (ruled (b2.read (tokens.getD i noToken).valueBits >>= fun r => .ok (tokens.getD i noToken, r.1, r.2)))
        (Reference.number (tokens.getD i noToken).valueBits (bits.drop (tokens.getD i noToken).prefixLength) >>= _) _
      rw [ruled_bind]
      refine Agrees.bind (number_agrees h2 (by omega)) fun x y hxy => ?_
      exact Agrees.pure ⟨rfl, hxy⟩
    · obtain ⟨e, he, hcode⟩ := skip_fails
        (show b1.remaining < (tokens.getD i noToken).prefixLength by rw [h1.remaining]; omega)
      have hnone : tokens.find? (fun t => (ofNat t.prefixLength t.prefixBits).isPrefixOf bits) = none := by
        refine find?_eq_none.mpr fun t ht hmatch => ?_
        obtain ⟨j, hj, rfl⟩ := getElem_of_mem ht
        have hin := isPrefixOf_iff_prefix.mp hmatch
        rw [← getD_eq_getElem _ noToken hj] at hin
        have hfound := tokenLookup_of_code hj (hin.trans (prefix_append bits pad))
        rw [hnine, hlookup] at hfound
        rw [← hfound] at hin
        have hle := hin.length_le
        rw [ofNat_length] at hle
        exact hfits hle
      rw [hnone, ruled_bind, he, ruled_error hcode]
      exact ⟨e, rfl⟩

/-- One bit of the list. -/
theorem number_one (bit : Bool) (rest : List Bool) : Reference.number 1 (bit :: rest) = some (bit.toNat, rest) := by
  cases bit <;> rfl

theorem ones_agrees (tokenAt : ℕ) : ∀ (bits : List Bool) (left n : ℕ) {br : BitReader}, Streams unused br bits →
    Agrees (ruled (readOnes tokenAt left n br)) (Reference.ones left bits)
      fun x y => x.1 = n + y.1 ∧ Streams unused x.2 y.2
  | [], left, n, br, h => by
    have hone := number_agrees h (show 1 ≤ 32 by decide)
    rw [readOnes.eq_def, ruled_bind, Reference.ones]
    obtain ⟨e, he⟩ := hone
    rw [he]
    exact ⟨e, rfl⟩
  | bit :: rest, left, n, br, h => by
    have hone := number_agrees h (show 1 ≤ 32 by decide)
    rw [number_one] at hone
    obtain ⟨⟨value, b1⟩, hread, hvalue, h1⟩ := hone
    dsimp only at hvalue h1
    rw [readOnes.eq_def, ruled_bind, hread]
    cases bit with
    | false =>
      subst hvalue
      rw [Reference.ones]
      exact ⟨_, rfl, rfl, h1⟩
    | true =>
      subst hvalue
      cases left with
      | zero =>
        rw [Reference.ones]
        exact ⟨_, rfl⟩
      | succ left =>
        have ih := ones_agrees tokenAt rest left (n + 1) h1
        rw [Reference.ones]
        show Agrees (ruled (readOnes tokenAt left (n + 1) b1)) _ _
        rcases hones : Reference.ones left rest with _ | ⟨k, tail⟩
        · rw [hones] at ih
          exact ih
        · rw [hones] at ih
          obtain ⟨a, ha, hk, htail⟩ := ih
          refine ⟨a, ha, ?_, htail⟩
          dsimp only at hk ⊢
          omega

theorem ones_le : ∀ (bits : List Bool) (most : ℕ) {k : ℕ} {tail : List Bool},
    Reference.ones most bits = some (k, tail) → k ≤ most
  | [], most, k, tail, hk => by
    rw [Reference.ones] at hk
    cases hk
  | false :: bits, most, k, tail, hk => by
    rw [Reference.ones] at hk
    cases hk
    exact Nat.zero_le _
  | true :: bits, 0, k, tail, hk => by cases hk
  | true :: bits, most + 1, k, tail, hk => by
    rw [Reference.ones] at hk
    obtain ⟨⟨j, rest⟩, hj, heq⟩ := Option.map_eq_some_iff.mp hk
    cases heq
    exact Nat.succ_le_succ (ones_le bits most hj)

/-- **A match length.** -/
theorem matchLength_agrees (tokenAt : ℕ) (h : Streams unused br bits) :
    Agrees (ruled (readLength tokenAt br)) (Reference.matchLength bits)
      fun x y => x.1 = y.1 ∧ Streams unused x.2 y.2 := by
  have hone := number_agrees h (show 1 ≤ 32 by decide)
  unfold readLength Reference.matchLength
  rw [ruled_bind]
  rcases bits with _ | ⟨bit, rest⟩
  · obtain ⟨e, he⟩ := hone
    rw [he]
    exact ⟨e, rfl⟩
  obtain ⟨⟨value, b1⟩, hread, hvalue, h1⟩ := hone
  subst hvalue
  rw [hread]
  cases bit with
  | false => exact ⟨_, rfl, rfl, h1⟩
  | true =>
    show Agrees (ruled (readOnes tokenAt (maxLengthOnes - 1) 1 b1 >>= fun r =>
        r.2.read (r.1 + 1) >>= fun e => .ok (2 ^ (r.1 + 1) + e.1, e.2)))
      ((Reference.ones (maxLengthOnes - 1) rest).map (fun r => (r.1 + 1, r.2)) >>= fun r =>
        if r.1 = 0 then some (minMatch, r.2)
        else Reference.number (r.1 + 1) r.2 >>= fun e => some (2 ^ (r.1 + 1) + e.1, e.2)) _
    have hones := ones_agrees tokenAt rest (maxLengthOnes - 1) 1 h1
    rw [ruled_bind]
    rcases hk : Reference.ones (maxLengthOnes - 1) rest with _ | ⟨k, tail⟩
    · rw [hk] at hones
      obtain ⟨e, he⟩ := hones
      rw [he]
      exact ⟨e, rfl⟩
    · have hle := ones_le rest _ hk
      rw [hk] at hones
      obtain ⟨⟨n, b2⟩, ha, hn, h2⟩ := hones
      rw [ha]
      have hn' : n = k + 1 := by omega
      subst hn'
      simp only [maxLengthOnes] at hle
      show Agrees (ruled (b2.read (k + 1 + 1) >>= fun e => .ok (2 ^ (k + 1 + 1) + e.1, e.2)))
        (Reference.number (k + 1 + 1) tail >>= fun e => some (2 ^ (k + 1 + 1) + e.1, e.2)) _
      rw [ruled_bind]
      refine Agrees.bind (number_agrees h2 (by omega)) fun x y hxy => ?_
      exact Agrees.pure ⟨by dsimp only; rw [hxy.1], hxy.2⟩

/-- **Whole bytes**, of the buffer and of the input, or of the list. -/
theorem wholeBytes_agrees (count : ℕ) (out : List UInt8) (h : Streams unused br bits) :
    Agrees (ruled (br.readAligned count out)) (Reference.wholeBytes unused count bits)
      fun x y => x.1 = out ++ y.1 ∧ y.1.length = count ∧ Streams unused x.2 y.2 := by
  obtain ⟨pad, hreads, hpad⟩ := h.reads
  have hbuffered : br.buffered % 8 = (bits.length + pad.length) % 8 := by
    obtain ⟨-, -, U, hU, -, hB⟩ := hreads
    have hlen := congrArg List.length hB
    rw [length_append, length_append, ofBytes_length] at hlen
    omega
  have hdrop : bits.drop ((bits.length + unused) % 8) = bits.drop (br.buffered % 8) := by
    rw [hbuffered]
    rcases hpad with hnil | hpad
    · rw [hnil, drop_nil, drop_nil]
    · rw [hpad]
  unfold Reference.wholeBytes
  rw [hdrop]
  dsimp only
  generalize hd : br.buffered % 8 = d at hbuffered
  have hrem := h.remaining
  split_ifs with hfits
  · rw [length_drop] at hfits
    have hdata : ((bits.drop d).take (8 * count)).length = 8 * count := by
      rw [length_take, length_drop]
      omega
    have hbytes : ofBytes (toBytes ((bits.drop d).take (8 * count))) = (bits.drop d).take (8 * count) := by
      rw [ofBytes_toBytes, hdata, filler, show (8 - 8 * count % 8) % 8 = 0 by omega, replicate_zero,
        append_nil]
    have hcount : (toBytes ((bits.drop d).take (8 * count))).length = count := by
      rw [toBytes_length]
      omega
    -- what follows the run, and the rest of the last byte
    have hsplit : bits ++ pad = (bits ++ pad).take d ++ ofBytes (toBytes ((bits.drop d).take (8 * count))) ++
        ((bits.drop d).drop (8 * count) ++ pad.drop (d - bits.length)) := by
      have hrun : (bits.drop d).take (8 * count) ++ (bits.drop d).drop (8 * count) = bits.drop d :=
        take_append_drop ..
      have hrest : (bits ++ pad).drop d = bits.drop d ++ pad.drop (d - bits.length) := drop_append
      rw [hbytes, append_assoc, ← append_assoc ((bits.drop d).take _), hrun, ← hrest, take_append_drop]
    rw [hsplit] at hreads
    have htake : ((bits ++ pad).take d).length = d := by
      rw [length_take, length_append]
      omega
    obtain ⟨br', hread, hreads', hrem'⟩ := readAligned_spec hreads (by omega)
      (by simp only [length_append, length_drop]; omega) (by rw [hcount]; omega) out
    rw [hcount] at hread hrem'
    rw [hread]
    refine ⟨_, rfl, rfl, hcount, ⟨⟨_, hreads', ?_⟩, ?_⟩⟩
    · rcases lt_or_ge bits.length d with hshort | hlong
      · refine .inl ?_
        rw [drop_of_length_le hshort.le, drop_nil]
      · rw [Nat.sub_eq_zero_of_le hlong]
        refine hpad.imp (fun hnil => ?_) id
        rw [hnil, drop_nil, drop_nil]
    · rw [hrem', length_drop, length_drop]
      omega
  · rw [length_drop] at hfits
    have hfail : br.readAligned count out =
        fail .truncated "ZGFX unencoded run runs past the end of the bit stream" br.r.offset := by
      unfold readAligned
      rw [if_pos (by omega)]
    rw [hfail]
    exact ⟨_, ruled_error fun h => by cases h⟩

/-! ### The rules of the ring -/

namespace Decompressor

theorem wrapInRange_of {cap : ℕ} : ∀ (fuel : ℕ) (ring : List UInt8) (ringPos : ℕ) (bytes : List UInt8),
    ring.length = cap → ringPos < cap → bytes.length ≤ fuel → wrapInRange fuel ring ringPos bytes = true
  | 0, ring, ringPos, bytes, _, _, hf => by
    rw [length_eq_zero_iff.mp (Nat.le_zero.mp hf)]
    rfl
  | fuel + 1, ring, ringPos, bytes, hring, hpos, hf => by
    rw [wrapInRange]
    split_ifs with hnil
    · rfl
    have hlen : 0 < bytes.length := length_pos_iff.mpr hnil
    dsimp only
    rw [hring]
    generalize hn : min bytes.length (cap - ringPos) = n
    have htake : (bytes.take n).length = n := by
      rw [length_take]
      omega
    have hring' : (Ring.overwrite ring ringPos (bytes.take n)).length = cap := by
      rw [Ring.overwrite_length (by omega), hring]
    rw [Bool.and_eq_true, decide_eq_true_eq]
    refine ⟨by omega, wrapInRange_of fuel _ _ _ hring' (Nat.mod_lt _ (by omega)) ?_⟩
    rw [length_drop]
    omega

theorem Tracks.recordInRange {d : Decompressor} {h : List UInt8} (ht : d.Tracks h) (bytes : List UInt8) :
    d.recordInRange bytes = true := by
  have hcap := d.history_pos
  have hlen := ht.length
  unfold Decompressor.recordInRange
  dsimp only
  generalize (if bytes.length > d.p.history then bytes.drop (bytes.length - d.p.history) else bytes) = bytes
  rcases lt_or_ge d.ring.length d.p.history with hlt | hge
  · rw [if_pos hlt]
    rw [length_take, min_eq_left (min_le_left _ _)]
    rcases lt_or_ge (d.p.history - d.ring.length) bytes.length with hmore | hall
    · refine wrapInRange_of _ _ _ _ ?_ (Nat.mod_lt _ hcap) le_rfl
      rw [length_append, length_take]
      omega
    · rw [min_eq_left hall, drop_length]
      rfl
  · rw [if_neg (by omega)]
    have hpos : d.ringPos < d.p.history := by
      rw [ht.pos]
      exact Nat.mod_lt _ hcap
    have hfull : d.ring.length = d.p.history := by omega
    exact wrapInRange_of _ _ _ _ hfull hpos le_rfl

theorem copyInRange_of {d : Decompressor} {distance : ℕ} (hpos : 1 ≤ distance) (hle : distance ≤ d.ring.length)
    (length : ℕ) : d.copyInRange distance length = true := by
  have hsrc : (d.ringPos + d.ring.length - distance) % d.ring.length < d.ring.length := Nat.mod_lt _ (by omega)
  unfold copyInRange
  exact decide_eq_true (by omega)

/-! ### The token loop -/

variable {b : Bounds} {d : Decompressor} {r : Reference} {s : Progress} {out : List UInt8}

/-- Both are in the same segment, behind the same output. -/
structure Progress.Matches (b : Bounds) (d : Decompressor) (r : Reference) (s : Progress) (out : List UInt8) :
    Prop where
  good : s.Good b d (r.history ++ out)
  same : s.out = out
  limit : out.length ≤ b.limit
  variant : r.variant = d.variant

theorem Progress.Matches.p_eq (hm : s.Matches b d r out) : r.p = d.p := by
  rw [Reference.p, hm.variant, Decompressor.p]

theorem room_agrees (hm : s.Matches b d r out) (more offset : ℕ) :
    Agrees (s.d.checkRoomChecked b s.out.length more offset) (r.room b.segmentStart b.limit out.length more)
      fun _ _ => Fits b d s more := by
  have hstart := hm.good.start
  have hrecorded := hm.good.recorded
  have hroom := hm.good.room
  have hlimit := hm.limit
  have hp := hm.good.p_eq
  have hrange : s.d.roomInRange b s.out.length = true := by
    unfold roomInRange
    rw [hp]
    exact decide_eq_true ⟨by omega, by omega, by rw [hm.same]; exact hlimit⟩
  refine Agrees.rule hrange ?_
  rw [← hm.same] at hlimit
  unfold checkRoom Reference.room
  rw [hp, hm.p_eq, ← hm.same]
  split_ifs with h1 h2 h3 h4 h5
  · omega
  · exact ⟨_, rfl⟩
  · omega
  · exact ⟨_, rfl⟩
  · exact ⟨(), rfl, h5⟩
  · omega

theorem Progress.Matches.append (hm : s.Matches b d r out) {bytes : List UInt8} (hfit : Fits b d s bytes.length) :
    Progress.Matches b d r { s with out := s.out ++ bytes } (out ++ bytes) := by
  have hgood := hm.good.append hfit
  rw [append_assoc] at hgood
  refine ⟨hgood, by rw [← hm.same], ?_, hm.variant⟩
  rw [length_append, ← hm.same]
  exact hfit.2

theorem Progress.Matches.sync (hm : s.Matches b d r out) :
    s.sync.Matches b d r out ∧ s.sync.d.Tracks (r.history ++ out) := by
  obtain ⟨hgood, htracks⟩ := hm.good.sync
  exact ⟨⟨hgood, hm.same, hm.limit, hm.variant⟩, htracks⟩

/-- Bringing the ring up to date breaks no rule. -/
theorem sync_agrees {α β : Type} {y : Option β} {R : α → β → Prop} (hm : s.Matches b d r out)
    {f : Progress → Checked Error α} (h : Agrees (f s.sync) y R) : Agrees (syncChecked s >>= f) y R := by
  obtain ⟨h0, ht, -⟩ := hm.good.tracks
  unfold syncChecked
  simp only [bind_assoc]
  exact Agrees.rule hm.good.recorded (Agrees.rule (ht.recordInRange _) h)

/-- **One token.** -/
theorem step_agrees (hm : s.Matches b d r out) (h : Streams unused br bits) :
    Agrees (decodeTokenChecked b s br) (r.step b.segmentStart b.limit unused out bits)
      fun x y => x.1.Matches b d r y.1 ∧ Streams unused x.2 y.2 := by
  refine Agrees.bind (token_agrees h) fun ⟨token, value, br⟩ ⟨token', value', bits⟩ ⟨htoken, hvalue, h⟩ => ?_
  dsimp only at htoken hvalue h ⊢
  subst htoken hvalue
  refine Agrees.ite Iff.rfl (fun _ => ?_) fun _ => ?_
  · refine Agrees.bind (room_agrees hm 1 _) fun _ _ hfit => ?_
    exact Agrees.pure ⟨hm.append hfit, h⟩
  refine Agrees.ite Iff.rfl (fun _ => ?_) fun hdistance => ?_
  · -- an unencoded run
    refine Agrees.bind (number_agrees h (by decide)) fun ⟨count, br⟩ ⟨count', bits⟩ ⟨hcount, h⟩ => ?_
    subst hcount
    refine Agrees.bind (room_agrees hm count _) fun _ _ hfit => ?_
    refine Agrees.bind (wholeBytes_agrees count s.out h) fun ⟨out', br⟩ ⟨run, bits⟩ ⟨hrun, hlength, h⟩ => ?_
    subst hrun
    refine Agrees.pure ⟨hm.append ?_, h⟩
    rw [hlength]
    exact hfit
  · -- a match
    refine Agrees.bind (matchLength_agrees _ h) fun ⟨length, br⟩ ⟨length', bits⟩ ⟨hlength, h⟩ => ?_
    subst hlength
    refine sync_agrees hm ?_
    obtain ⟨hms, htracks⟩ := hm.sync
    have hring : s.sync.d.ring.length = min r.p.history (r.history ++ out).length := by
      rw [htracks.length, hms.good.p_eq, hm.p_eq, min_comm]
    refine Agrees.ite (by rw [hring]) (fun _ => ?_) fun hnear => ?_
    · exact ⟨_, rfl⟩
    refine Agrees.bind (room_agrees hms length _) fun _ _ hfit => ?_
    have hpos : 1 ≤ token.base + value := by omega
    have hle : token.base + value ≤ s.sync.d.ring.length := by omega
    refine Agrees.rule (copyInRange_of hpos hle length) ?_
    have hcopy := copy_isCopy hpos length (h := r.history ++ out) (by omega)
    rw [copyMatch_spec htracks hle hcopy]
    refine Agrees.pure ⟨hms.append ?_, h⟩
    rw [hcopy.length]
    exact hfit

variable {rest : List Bool}

theorem number_le {count v : ℕ} (h : Reference.number count bits = some (v, rest)) : rest.length ≤ bits.length := by
  unfold Reference.number at h
  split_ifs at h
  cases h
  rw [length_drop]
  omega

theorem ones_length : ∀ (bits : List Bool) (most : ℕ) {k : ℕ} {rest : List Bool},
    Reference.ones most bits = some (k, rest) → rest.length ≤ bits.length
  | [], most, k, rest, hk => by
    rw [Reference.ones] at hk
    cases hk
  | false :: bits, most, k, rest, hk => by
    rw [Reference.ones] at hk
    cases hk
    exact Nat.le_succ _
  | true :: bits, 0, k, rest, hk => by cases hk
  | true :: bits, most + 1, k, rest, hk => by
    rw [Reference.ones] at hk
    obtain ⟨⟨j, tail⟩, hj, heq⟩ := Option.map_eq_some_iff.mp hk
    cases heq
    exact (ones_length bits most hj).trans (Nat.le_succ _)

theorem matchLength_le {length : ℕ} (h : Reference.matchLength bits = some (length, rest)) :
    rest.length ≤ bits.length := by
  unfold Reference.matchLength at h
  obtain ⟨⟨k, mid⟩, hk, h⟩ := Option.bind_eq_some_iff.mp h
  have hmid := ones_length bits _ hk
  dsimp only at h
  split_ifs at h
  · cases h
    exact hmid
  · obtain ⟨⟨extra, last⟩, hextra, h⟩ := Option.bind_eq_some_iff.mp h
    cases h
    exact (number_le hextra).trans hmid

theorem wholeBytes_le {count : ℕ} {run : List UInt8} (h : Reference.wholeBytes unused count bits = some (run, rest)) :
    rest.length ≤ bits.length := by
  unfold Reference.wholeBytes at h
  dsimp only at h
  split_ifs at h
  cases h
  rw [length_drop, length_drop]
  omega

theorem token_lt {t : Token} {value : ℕ} (h : Reference.token bits = some (t, value, rest)) :
    rest.length < bits.length := by
  unfold Reference.token at h
  obtain ⟨token, hfind, h⟩ := Option.bind_eq_some_iff.mp h
  obtain ⟨⟨v, last⟩, hnumber, h⟩ := Option.bind_eq_some_iff.mp h
  cases h
  have hfound := find?_some hfind
  have hle := ( isPrefixOf_iff_prefix.mp hfound).length_le
  obtain ⟨h1, -⟩ := tokens_widths _ (mem_of_find?_eq_some hfind)
  have hrest := number_le hnumber
  rw [length_drop] at hrest
  rw [ofNat_length] at hle
  omega

/-- A token takes a bit at least. -/
theorem step_lt {start limit : ℕ} {next : List UInt8 × List Bool}
    (h : r.step start limit unused out bits = some next) : next.2.length < bits.length := by
  unfold Reference.step at h
  obtain ⟨⟨token, value, rest⟩, htoken, h⟩ := Option.bind_eq_some_iff.mp h
  have hlt := token_lt htoken
  dsimp only at h
  split_ifs at h
  · obtain ⟨_, -, h⟩ := Option.bind_eq_some_iff.mp h
    cases h
    exact hlt
  · obtain ⟨⟨count, mid⟩, hcount, h⟩ := Option.bind_eq_some_iff.mp h
    obtain ⟨_, -, h⟩ := Option.bind_eq_some_iff.mp h
    obtain ⟨⟨run, last⟩, hrun, h⟩ := Option.bind_eq_some_iff.mp h
    cases h
    exact ((wholeBytes_le hrun).trans (number_le hcount)).trans_lt hlt
  · obtain ⟨_, -, h⟩ := Option.bind_eq_some_iff.mp h
    cases h
  · obtain ⟨⟨length, mid⟩, hlength, h⟩ := Option.bind_eq_some_iff.mp h
    obtain ⟨_, -, h⟩ := Option.bind_eq_some_iff.mp h
    cases h
    exact (matchLength_le hlength).trans_lt hlt

/-- **The token loop**, with a bound that it does not reach. -/
theorem decodeBits_agrees : ∀ (fuel : ℕ) {s : Progress} {br : BitReader} {out : List UInt8} {bits : List Bool},
    s.Matches b d r out → Streams unused br bits → bits.length < fuel →
    Agrees (decodeTokensChecked b fuel s br) (r.decodeBits b.segmentStart b.limit unused fuel out bits)
      fun s' out' => s'.Matches b d r out'
  | 0, _, _, _, _, _, _, hfuel => absurd hfuel (Nat.not_lt_zero _)
  | fuel + 1, s, br, out, bits, hm, h, hfuel => by
    rw [decodeTokensChecked, Reference.decodeBits]
    refine Agrees.ite (by rw [h.remaining]) (fun _ => ?_) fun _ => Agrees.pure hm
    have hstep := step_agrees hm h
    rcases hnext : r.step b.segmentStart b.limit unused out bits with _ | ⟨out', bits'⟩
    · rw [hnext] at hstep
      obtain ⟨e, he⟩ := hstep
      rw [he]
      exact ⟨e, rfl⟩
    · have hlt : bits'.length < bits.length := step_lt hnext
      rw [hnext] at hstep
      obtain ⟨⟨s', br'⟩, hs', hm', h'⟩ := hstep
      rw [hs']
      exact decodeBits_agrees fuel hm' h' (show bits'.length < fuel by omega)

/-! ### Segments and messages -/

theorem bytes_error {count : ℕ} {reader : Reader} {e : Error} (h : bytes count reader = .error e) :
    e.code ≠ .io := by
  unfold bytes at h
  split_ifs at h
  cases h
  nofun

theorem readLe_agrees (n : ℕ) (reader : Reader) : Agrees (ruled (readLe n reader))
    (readLe n reader).toOption Eq := by
  refine ruled_agrees fun e he => ?_
  unfold readLe at he
  rcases hbytes : bytes n reader with e' | ⟨raw, rest⟩
  · rw [hbytes] at he
    cases he
    exact bytes_error hbytes
  · rw [hbytes] at he
    cases he

theorem sub_agrees (n : ℕ) (reader : Reader) : Agrees (ruled (sub n reader))
    (sub n reader).toOption Eq := by
  refine ruled_agrees fun e he => ?_
  unfold sub at he
  rcases hbytes : bytes n reader with e' | ⟨raw, rest⟩
  · rw [hbytes] at he
    cases he
    exact bytes_error hbytes
  · rw [hbytes] at he
    cases he

/-- A decompressor between two segments. -/
structure Between (d : Decompressor) (r : Reference) (out : List UInt8) : Prop where
  tracks : d.Tracks (r.history ++ out)
  variant : r.variant = d.variant
  maxOutput : r.maxOutput = d.maxOutput

/-- **One segment.** -/
theorem segment_agrees {d : Decompressor} {r : Reference} {out : List UInt8} (hb : Between d r out) (seg : Reader)
    {limit : ℕ} (e : Errc) (hlimit : out.length ≤ limit) :
    Agrees (d.decodeSegmentChecked seg out limit e) (r.decodeSegment seg out limit)
      fun x out' => x.2 = out' ∧ Between x.1 r out' ∧ out'.length ≤ limit := by
  have hp : r.p = d.p := by rw [Reference.p, hb.variant, Decompressor.p]
  have hm : Progress.Matches ⟨out.length, limit, e⟩ d r ⟨d, out, out.length⟩ out :=
    ⟨⟨⟨_, hb.tracks, by simp⟩, le_rfl, le_rfl, Nat.le_add_right _ _, rfl, rfl⟩, rfl, hlimit, hb.variant⟩
  refine Agrees.bind (readLe_agrees 1 seg) ?_
  rintro ⟨header, seg⟩ _ heq
  subst heq
  refine Agrees.ite (by rw [hp]) (fun _ => ⟨_, rfl⟩) fun _ => ?_
  refine Agrees.ite Iff.rfl (fun _ => ?_) fun _ => ?_
  · refine Agrees.bind (room_agrees hm _ _) fun _ _ hfit => ?_
    obtain ⟨hsegment, hfit⟩ := hfit
    refine Agrees.rule (hb.tracks.recordInRange _) ?_
    refine Agrees.pure ⟨rfl, ⟨?_, hb.variant, hb.maxOutput⟩, ?_⟩
    · have hhistory : d.p.maxSegment ≤ d.p.history := (params_bounds d.variant).2.2.1
      have hrecord := record_spec hb.tracks (show seg.rest.length ≤ d.p.history by dsimp only at hsegment; omega)
      rwa [append_assoc] at hrecord
    · rw [length_append]
      exact hfit
  refine Agrees.ite Iff.rfl (fun _ => ⟨_, rfl⟩) fun _ => ?_
  refine Agrees.bind (sub_agrees _ _) ?_
  rintro ⟨stream, seg⟩ _ heq
  subst heq
  refine Agrees.bind (readLe_agrees 1 seg) ?_
  rintro ⟨unused, seg⟩ _ heq
  subst heq
  dsimp only
  refine Agrees.ite Iff.rfl (fun _ => ⟨_, rfl⟩) fun hunused => ?_
  refine Agrees.ite Iff.rfl (fun _ => ⟨_, rfl⟩) fun hsize => ?_
  refine Agrees.rule (Nat.sub_le _ _) ?_
  have hlength : ((ofBytes stream.rest).take (stream.rest.length * 8 - unused)).length =
      stream.rest.length * 8 - unused := by
    rw [length_take, ofBytes_length]
    omega
  have hstreams : Streams unused ⟨stream, 0, 0, stream.rest.length * 8 - unused⟩
      ((ofBytes stream.rest).take (stream.rest.length * 8 - unused)) := by
    refine ⟨⟨(ofBytes stream.rest).drop (stream.rest.length * 8 - unused), ⟨by simp, by simp, [], rfl, ?_, ?_⟩,
      .inr ?_⟩, ?_⟩
    · simp [ofNat_zero_right]
    · rw [take_append_drop, nil_append]
    · rw [length_drop, ofBytes_length]
      omega
    · rw [hlength]
  have hloop := decodeBits_agrees (stream.rest.length * 8 - unused + 1) hm hstreams (by omega)
  rw [hlength, ← bind_pure (r.decodeBits _ _ _ _ _ _)]
  refine Agrees.bind hloop fun s out' hm' => sync_agrees hm' ?_
  obtain ⟨hms, htracks⟩ := hm'.sync
  exact Agrees.pure ⟨hms.same, ⟨htracks, hb.variant.trans hms.good.variant.symm,
    hb.maxOutput.trans hms.good.maxOutput.symm⟩, hms.limit⟩

theorem segments_agrees {size : ℕ} : ∀ (count : ℕ) {d : Decompressor} {r : Reference} {reader : Reader}
    {out : List UInt8},
    Between d r out → out.length ≤ size →
    Agrees (decodeSegmentsChecked size count d reader out) (r.decodeSegments size count reader out)
      fun x y => x.2.1 = y.1 ∧ x.2.2 = y.2 ∧ Between x.1 r y.2
  | 0, _, _, _, _, hb, _ => Agrees.pure ⟨rfl, rfl, hb⟩
  | count + 1, d, r, reader, out, hb, hout => by
    refine Agrees.bind (readLe_agrees 4 reader) fun ⟨segmentSize, reader⟩ _ heq => ?_
    subst heq
    refine Agrees.bind (sub_agrees segmentSize reader) fun ⟨segment, reader⟩ _ heq => ?_
    subst heq
    refine Agrees.bind (segment_agrees hb segment .invalidLength hout) fun ⟨d', out'⟩ _ ⟨heq, hb', hout'⟩ => ?_
    subst heq
    exact segments_agrees count hb' hout'

/-- **One message.** The history of the decompressor goes on with its output,
which is within the limit. -/
theorem decode_agrees {d : Decompressor} {r : Reference} (hb : Between d r []) (data : List UInt8) :
    Agrees (d.decompressChecked data) (r.decode data)
      fun x out => x.1 = out ∧ Between x.2 r out ∧ out.length ≤ d.maxOutput := by
  have hp : r.p = d.p := by rw [Reference.p, hb.variant, Decompressor.p]
  have hmax := hb.maxOutput
  refine Agrees.bind (readLe_agrees 1 _) ?_
  rintro ⟨descriptor, reader⟩ _ heq
  subst heq
  dsimp only
  refine Agrees.ite Iff.rfl (fun _ => ?_) fun _ => ?_
  · refine Agrees.bind (sub_agrees _ _) ?_
    rintro ⟨segment, _⟩ _ heq
    subst heq
    rw [hmax, ← bind_pure (r.decodeSegment _ _ _)]
    refine Agrees.bind (segment_agrees hb segment .limitExceeded (Nat.zero_le _)) ?_
    rintro ⟨d', out⟩ _ ⟨heq, hb', hout⟩
    exact Agrees.pure ⟨heq, hb', hout⟩
  refine Agrees.ite Iff.rfl (fun _ => ⟨_, rfl⟩) fun _ => ?_
  refine Agrees.bind (readLe_agrees 2 _) ?_
  rintro ⟨count, reader⟩ _ heq
  subst heq
  refine Agrees.bind (readLe_agrees 4 _) ?_
  rintro ⟨size, reader⟩ _ heq
  subst heq
  refine Agrees.ite Iff.rfl (fun _ => ⟨_, rfl⟩) fun _ => ?_
  refine Agrees.ite (by rw [hmax]) (fun _ => ⟨_, rfl⟩) fun hsize => ?_
  refine Agrees.ite (by rw [hp]) (fun _ => ⟨_, rfl⟩) fun _ => ?_
  refine Agrees.ite Iff.rfl (fun _ => ⟨_, rfl⟩) fun _ => ?_
  refine Agrees.bind (segments_agrees count hb (Nat.zero_le _)) ?_
  rintro ⟨d', reader, out⟩ ⟨_, _⟩ ⟨h1, h2, hb'⟩
  subst h1 h2
  have hend : Agrees (ruled (expectEnd "trailing data after the last ZGFX segment" reader))
      (expectEnd "" reader).toOption fun _ _ => True := by
    unfold expectEnd
    split_ifs
    · exact ⟨_, rfl, trivial⟩
    · exact ⟨_, ruled_error fun h => by cases h⟩
  refine Agrees.bind hend fun _ _ _ => ?_
  refine Agrees.ite Iff.rfl (fun _ => ⟨_, rfl⟩) fun hlength => ?_
  exact Agrees.pure ⟨rfl, hb', by omega⟩

/-! ### Runs -/

/-- What a client of the decompressor calls. -/
inductive Call where
  | decompress (data : List UInt8)
  | reset
  deriving DecidableEq

/-- The state that successful calls lead to. -/
def after : Decompressor → List Call → Option Decompressor
  | d, [] => some d
  | d, .reset :: calls => after d.reset calls
  | d, .decompress data :: calls =>
    match d.decompress data with
    | .error _ => none
    | .ok (_, d) => after d calls

end Decompressor

/-- What the reference has seen by then. -/
def Reference.after : Reference → List Decompressor.Call → Option Reference
  | r, [] => some r
  | r, .reset :: calls => r.reset.after calls
  | r, .decompress data :: calls => (r.decompress data).bind fun next => next.2.after calls

namespace Decompressor

/-- The decompressor behind the reference. -/
def Refines (d : Decompressor) (r : Reference) : Prop := Between d r []

theorem Refines.message {d : Decompressor} {r : Reference} (h : d.Refines r) (data : List UInt8) :
    Agrees (d.decompressChecked data) (r.decompress data)
      fun x y => x.1 = y.1 ∧ x.2.Refines y.2 ∧ y.1.length ≤ d.maxOutput ∧ x.2.maxOutput = d.maxOutput := by
  have hdecode := decode_agrees h data
  unfold Reference.decompress
  rcases hout : r.decode data with _ | out
  · rw [hout] at hdecode
    exact hdecode
  · rw [hout] at hdecode
    obtain ⟨⟨out', d'⟩, hd', heq, hb', hsize⟩ := hdecode
    refine ⟨(out', d'), hd', heq, ⟨?_, hb'.variant, hb'.maxOutput⟩, hsize, hb'.maxOutput.symm.trans h.maxOutput⟩
    have htracks := hb'.tracks
    rwa [append_nil]

theorem after_refines : ∀ (calls : List Call) {d d' : Decompressor} {r : Reference}, d.Refines r →
    d.after calls = some d' → ∃ r', r.after calls = some r' ∧ d'.Refines r' ∧ d'.maxOutput = d.maxOutput
  | [], d, d', r, h, hafter => by
    obtain rfl := Option.some.inj hafter
    exact ⟨r, rfl, h, rfl⟩
  | .reset :: calls, d, d', r, h, hafter =>
    after_refines calls (d := d.reset) (r := r.reset) ⟨Ring.Holds.nil _, h.variant, h.maxOutput⟩ hafter
  | .decompress data :: calls, d, d', r, h, hafter => by
    have hmessage := h.message data
    rw [after] at hafter
    rw [Reference.after]
    rcases hnext : r.decompress data with _ | ⟨out, r₁⟩
    · rw [hnext] at hmessage
      obtain ⟨e, he⟩ := hmessage
      rw [decompressChecked_erases d data _ he] at hafter
      cases hafter
    · rw [hnext] at hmessage
      obtain ⟨⟨out', d₁⟩, hd₁, -, h₁, -, hmax⟩ := hmessage
      rw [decompressChecked_erases d data _ hd₁] at hafter
      obtain ⟨r', hr', h', hmax'⟩ := after_refines calls h₁ hafter
      exact ⟨r', hr', h', hmax'.trans hmax⟩

/-- **The decompressor refines plain LZ77**, in every state that successful
calls lead to and for every input: no rule is broken, it fails where the
reference does, and otherwise the bytes are the same and within the limit. -/
theorem run_refines (variant : ZgfxVariant) (maxOutput : ℕ) (calls : List Call) {d : Decompressor}
    (hafter : after { variant := variant, maxOutput := maxOutput } calls = some d) (data : List UInt8) :
    ∃ r, Reference.after { variant := variant, maxOutput := maxOutput } calls = some r ∧
      d.decompressChecked data = ExceptT.mk (some (d.decompress data)) ∧
      (d.decompress data).toOption.map Prod.fst = (r.decompress data).map Prod.fst ∧
      ∀ out d', d.decompress data = .ok (out, d') → out.length ≤ maxOutput := by
  have hstart : Refines { variant := variant, maxOutput := maxOutput } { variant := variant, maxOutput := maxOutput } :=
    ⟨Ring.Holds.nil _, rfl, rfl⟩
  obtain ⟨r, hr, h, hmax⟩ := after_refines calls hstart hafter
  have hmessage := h.message data
  refine ⟨r, hr, ?_⟩
  rcases hnext : r.decompress data with _ | ⟨out, r'⟩
  · rw [hnext] at hmessage
    obtain ⟨e, he⟩ := hmessage
    rw [he, decompressChecked_erases d data _ he]
    exact ⟨rfl, rfl, nofun⟩
  · rw [hnext] at hmessage
    obtain ⟨⟨out', d'⟩, hd', heq, -, hsize, -⟩ := hmessage
    dsimp only at heq
    subst heq
    rw [hd', decompressChecked_erases d data _ hd']
    refine ⟨rfl, rfl, fun out d'' hout => ?_⟩
    cases hout
    rw [hmax] at hsize
    exact hsize

/-- A match that overlaps its own output, after a reset. -/
theorem run_refines_overlap : ∃ d, after { variant := .rdp8, maxOutput := 100 }
    [.decompress [0xE0, 4, 7], .reset] = some d ∧
    ∃ r, Reference.after { variant := .rdp8, maxOutput := 100 } [.decompress [0xE0, 4, 7], .reset] = some r ∧
      d.decompressChecked [0xE0, 0x24, 0x20, 0xC4, 0x40, 1] = ExceptT.mk
        (some (d.decompress [0xE0, 0x24, 0x20, 0xC4, 0x40, 1])) ∧
      (d.decompress [0xE0, 0x24, 0x20, 0xC4, 0x40, 1]).toOption.map Prod.fst =
        (r.decompress [0xE0, 0x24, 0x20, 0xC4, 0x40, 1]).map Prod.fst ∧
      ∀ out d', d.decompress [0xE0, 0x24, 0x20, 0xC4, 0x40, 1] = .ok (out, d') → out.length ≤ 100 :=
  ⟨{ variant := .rdp8, maxOutput := 100 }, by decide +kernel,
    run_refines .rdp8 100 [.decompress [0xE0, 4, 7], .reset] (by decide +kernel) _⟩

end Decompressor
end Zgfx
end Codec
end Farland
