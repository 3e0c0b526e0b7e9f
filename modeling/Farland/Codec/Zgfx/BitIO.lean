/-
# ZGFX bit input and output

`BitWriter` keeps up to 7 unwritten bits at the low end of a 64-bit
accumulator, `BitReader` up to 39 buffered bits at the high end of one, and a
count of the bits that belong to the stream (`codec/zgfx.cpp`, "Bit I/O").
Both are lists of bits in disguise: `BitWriter.bits` is everything written,
and `Reads r B` says that `B` is everything still to be read. The lemmas of
this module say that `put` appends and that `read` takes off what was put.
-/
import Farland.Codec.Zgfx.Tokens

namespace Farland
namespace Codec
namespace Zgfx

open Bits List

/-! ### Writing -/

structure BitWriter where
  out : List UInt8 := []
  acc : ℕ := 0
  pending : ℕ := 0
  deriving DecidableEq

namespace BitWriter

variable (w : BitWriter)

/-- Appends the low `count` (at most 32) bits of `value`. -/
def put (value count : ℕ) : BitWriter :=
  let acc := ((w.acc <<< count) ||| value) % 2 ^ 64
  let d := drain acc (w.pending + count) w.out
  ⟨d.1, acc, d.2⟩

def putCode (c : Code) : BitWriter := w.put c.bits c.length

def align : BitWriter := if w.pending ≠ 0 then w.put 0 (8 - w.pending) else w

/-- Appends whole bytes; `none` is the failed assertion that the stream is
byte-aligned. -/
def bytes (data : List UInt8) : Option BitWriter :=
  if w.pending = 0 then some { w with out := w.out ++ data } else none

/-- Pads the last byte and appends the number of padding bits. -/
def finish : List UInt8 :=
  let unused := (8 - w.pending) % 8
  w.align.out ++ [UInt8.ofNat unused]

/-- All bits written so far. -/
def bits : List Bool := ofBytes w.out ++ ofNat w.pending w.acc

@[simp] theorem bits_empty : ({} : BitWriter).bits = [] := rfl

theorem bits_length : w.bits.length = 8 * w.out.length + w.pending := by
  simp [bits]

theorem put_pending (value count : ℕ) : (w.put value count).pending = (w.pending + count) % 8 :=
  drain_pending _ _ _

variable {w : BitWriter}

theorem bits_put {value count : ℕ} (hw : w.pending < 8) (hv : value < 2 ^ count) (hc : count ≤ 32) :
    (w.put value count).bits = w.bits ++ ofNat count value := by
  simp only [put, bits]
  rw [ofNat_drain, ofNat_mod (by omega), ofNat_shiftLeft_or hv, append_assoc]

theorem put_pending_lt (w : BitWriter) (value count : ℕ) : (w.put value count).pending < 8 := by
  rw [put_pending]
  exact Nat.mod_lt _ (by omega)

/-- The padding `align` writes from the current position. -/
def padding (n : ℕ) : List Bool := List.replicate ((8 - n % 8) % 8) false

theorem align_spec (hw : w.pending < 8) : w.align.pending = 0 ∧ w.align.bits = w.bits ++ padding w.bits.length := by
  rw [align]
  split_ifs with h
  · refine ⟨by rw [put_pending]; omega, ?_⟩
    rw [bits_put hw (Nat.two_pow_pos _) (by omega), bits_length, ofNat_zero_right]
    congr 2
    omega
  · simp only [not_not] at h
    refine ⟨h, ?_⟩
    rw [bits_length, padding, h]
    simp

theorem bytes_spec (h : w.pending = 0) (data : List UInt8) :
    ∃ w', w.bytes data = some w' ∧ w'.pending = 0 ∧ w'.bits = w.bits ++ ofBytes data := by
  refine ⟨_, if_pos h, h, ?_⟩
  simp [bits, h]

/-- What `finish` returns: the bits padded to whole bytes, and how many are
padding. -/
theorem finish_spec (hw : w.pending < 8) : ∃ body u, w.finish = body ++ [UInt8.ofNat u] ∧
    u ≤ 7 ∧ ofBytes body = w.bits ++ List.replicate u false := by
  obtain ⟨h0, hbits⟩ := align_spec hw
  refine ⟨w.align.out, (8 - w.pending) % 8, rfl, by omega, ?_⟩
  have hout : ofBytes w.align.out = w.align.bits := by rw [bits, h0]; simp
  rw [hout, hbits, padding, bits_length]
  congr 2
  omega

end BitWriter

/-! ### Reading -/

structure BitReader where
  r : Reader
  acc : ℕ := 0
  buffered : ℕ := 0
  remaining : ℕ
  deriving DecidableEq

namespace BitReader

/-- Loads bytes until `count` bits are buffered or the data ends. -/
def load (count : ℕ) : List UInt8 → ℕ → ℕ → ℕ → List UInt8 × ℕ × ℕ × ℕ
  | [], o, acc, buffered => ([], o, acc, buffered)
  | b :: rest, o, acc, buffered =>
    if buffered < count then load count rest (o + 1) (acc ||| (b.toNat <<< (56 - buffered))) (buffered + 8)
    else (b :: rest, o, acc, buffered)

variable (br : BitReader)

variable (count : ℕ)

/-- The next `count` (1..32) bits without consuming them; zeros past the end. -/
def peek : ℕ × BitReader :=
  let l := load count br.r.rest br.r.offset br.acc br.buffered
  (l.2.2.1 >>> (64 - count), { br with r := ⟨l.1, l.2.1⟩, acc := l.2.2.1, buffered := l.2.2.2 })

/-- The assertion of `skip` is modelled by an error of its own. -/
def assertion : Error := ⟨.io, "count <= buffered_", 0⟩

def skip : Result BitReader :=
  if count > br.remaining then
    fail .truncated "ZGFX token runs past the end of the bit stream" br.r.offset
  else if br.buffered < count then .error assertion
  else .ok { br with
    acc := (br.acc <<< count) % 2 ^ 64
    buffered := br.buffered - count
    remaining := br.remaining - count }

def read : Result (ℕ × BitReader) :=
  if count = 0 then .ok (0, br)
  else
    let p := br.peek count
    match p.2.skip count with
    | .ok br' => .ok (p.1, br')
    | .error e => .error e

/-- The loop of `read_aligned` over the buffered bytes. -/
def takeBuffered : ℕ → ℕ → ℕ → List UInt8 → ℕ × ℕ × ℕ × List UInt8
  | 0, acc, buffered, out => (0, acc, buffered, out)
  | count + 1, acc, buffered, out =>
    if buffered ≥ 8 then
      takeBuffered count ((acc <<< 8) % 2 ^ 64) (buffered - 8) (out ++ [UInt8.ofNat (acc >>> 56)])
    else (count + 1, acc, buffered, out)

/-- Drops the rest of the current byte and appends the next `count` whole
bytes to `out`. -/
def readAligned (out : List UInt8) : Result (List UInt8 × BitReader) :=
  let drop := br.buffered % 8
  let acc := (br.acc <<< drop) % 2 ^ 64
  let buffered := br.buffered - drop
  let remaining := br.remaining - min drop br.remaining
  if count > remaining / 8 then
    fail .truncated "ZGFX unencoded run runs past the end of the bit stream" br.r.offset
  else
    let t := takeBuffered count acc buffered out
    match Reader.bytes t.1 br.r with
    | .ok (run, r) => .ok (t.2.2.2 ++ run, ⟨r, t.2.1, t.2.2.1, remaining - count * 8⟩)
    | .error e => .error e

/-! ### A reader is a list of bits -/

/-- `B` is what is left to read: the buffered bits, which fill the top of the
accumulator above zeros, and the bytes not loaded yet. -/
def Reads (B : List Bool) : Prop :=
  br.buffered ≤ 39 ∧ br.acc < 2 ^ 64 ∧ ∃ U : List Bool, U.length = br.buffered ∧
    ofNat 64 br.acc = U ++ List.replicate (64 - br.buffered) false ∧ B = U ++ ofBytes br.r.rest

theorem load_spec {count : ℕ} (hc : count ≤ 32) : ∀ (rest : List UInt8) (o acc buffered : ℕ) (U : List Bool),
    U.length = buffered → buffered ≤ 39 → acc < 2 ^ 64 →
    ofNat 64 acc = U ++ List.replicate (64 - buffered) false →
    ∃ rest' o' acc' buffered' U', load count rest o acc buffered = (rest', o', acc', buffered') ∧
      U'.length = buffered' ∧ buffered' ≤ 39 ∧ acc' < 2 ^ 64 ∧
      ofNat 64 acc' = U' ++ List.replicate (64 - buffered') false ∧
      U' ++ ofBytes rest' = U ++ ofBytes rest ∧ (count ≤ buffered' ∨ rest' = [])
  | [], o, acc, buffered, U, hU, hb, hlt, ha => ⟨[], o, acc, buffered, U, rfl, hU, hb, hlt, ha, rfl, Or.inr rfl⟩
  | b :: rest, o, acc, buffered, U, hU, hb, hlt, ha => by
    rw [load]
    split_ifs with h
    · have hacc : ofNat 64 (acc ||| (b.toNat <<< (56 - buffered))) =
          (U ++ ofNat 8 b.toNat) ++ List.replicate (64 - (buffered + 8)) false := by
        have := ofNat_or_shiftLeft (n := 64) (k := buffered) (m := 8) hU (by omega) ha b.toNat_lt
        rw [show 64 - buffered - 8 = 56 - buffered by omega] at this
        rw [this, show 64 - (buffered + 8) = 56 - buffered by omega]
      have hbyte : b.toNat <<< (56 - buffered) < 2 ^ 64 := by
        rw [Nat.shiftLeft_eq]
        calc b.toNat * 2 ^ (56 - buffered) < 2 ^ 8 * 2 ^ (56 - buffered) :=
              Nat.mul_lt_mul_of_pos_right b.toNat_lt (Nat.two_pow_pos _)
          _ = 2 ^ (8 + (56 - buffered)) := (pow_add 2 8 _).symm
          _ ≤ 2 ^ 64 := Nat.pow_le_pow_right (by omega) (by omega)
      obtain ⟨rest', o', acc', buffered', U', h1, h2, h3, h4, h5, h6, h7⟩ :=
        load_spec hc rest (o + 1) _ (buffered + 8) (U ++ ofNat 8 b.toNat) (by simp [hU]) (by omega)
          (Nat.or_lt_two_pow hlt hbyte) hacc
      refine ⟨rest', o', acc', buffered', U', h1, h2, h3, h4, h5, ?_, h7⟩
      rw [h6, ofBytes_cons, append_assoc]
    · exact ⟨b :: rest, o, acc, buffered, U, rfl, hU, hb, hlt, ha, rfl, Or.inl (by omega)⟩

variable {br : BitReader}

/-- `peek` shows the next bits, padded with zeros, and buffers as many of
them as there are. -/
theorem peek_spec {B : List Bool} (hr : br.Reads B) (count : ℕ) (hc : count ≤ 32) :
    ∃ br', br.peek count = (toNat ((B ++ List.replicate count false).take count), br') ∧ br'.Reads B ∧
      br'.remaining = br.remaining ∧ min count B.length ≤ br'.buffered := by
  obtain ⟨hb, hlt, U, hU, ha, hB⟩ := hr
  obtain ⟨rest', o', acc', buffered', U', h1, h2, h3, h4, h5, h6, h7⟩ :=
    load_spec hc br.r.rest br.r.offset br.acc br.buffered U hU hb hlt ha
  have hB' : B = U' ++ ofBytes rest' := hB.trans h6.symm
  have hval : acc' >>> (64 - count) < 2 ^ count := by
    rw [Nat.shiftRight_eq_div_pow]
    refine Nat.div_lt_of_lt_mul ?_
    rwa [← pow_add, show 64 - count + count = 64 by omega]
  -- the top `count` bits of the accumulator are the next bits, or zeros behind them
  have htop : ofNat count (acc' >>> (64 - count)) = (B ++ List.replicate count false).take count := by
    rw [← take_ofNat (by omega), h5, hB']
    rcases h7 with h7 | rfl
    · rw [append_assoc, take_append_of_le_length (by omega), take_append_of_le_length (by omega)]
    · rw [ofBytes_nil, append_nil, take_append, take_append, take_replicate,
        take_replicate]
      congr 2
      omega
  refine ⟨{ br with r := ⟨rest', o'⟩, acc := acc', buffered := buffered' }, ?_, ⟨h3, h4, U', h2, h5, hB'⟩, rfl, ?_⟩
  · simp only [peek, h1]
    rw [← htop, toNat_ofNat hval]
  · rw [hB']
    rcases h7 with h7 | rfl
    · simp only
      omega
    · simp only [ofBytes_nil, append_nil]
      omega

theorem skip_spec {B : List Bool} (hr : br.Reads B) (count : ℕ) (hrem : count ≤ br.remaining)
    (hbuf : count ≤ br.buffered) :
    ∃ br', br.skip count = .ok br' ∧ br'.Reads (B.drop count) ∧ br'.remaining = br.remaining - count := by
  obtain ⟨hb, hlt, U, hU, ha, hB⟩ := hr
  refine ⟨_, by rw [skip, if_neg (by omega), if_neg (by omega)], ⟨by simp only; omega, ?_, U.drop count, ?_, ?_, ?_⟩,
    rfl⟩
  · exact Nat.mod_lt _ (by decide)
  · rw [length_drop, hU]
  · simp only
    rw [ofNat_shiftLeft_mod (by omega), ha, drop_append_of_le_length (by omega), append_assoc,
      replicate_append_replicate]
    congr 2
    omega
  · rw [hB, drop_append_of_le_length (by omega)]

/-- **Reading takes off what stands in front.** -/
theorem read_spec {n v : ℕ} {T : List Bool} (hr : br.Reads (ofNat n v ++ T)) (hn : n ≤ 32) (hv : v < 2 ^ n)
    (hrem : n ≤ br.remaining) : ∃ br', br.read n = .ok (v, br') ∧ br'.Reads T ∧ br'.remaining = br.remaining - n := by
  rcases Nat.eq_zero_or_pos n with rfl | hpos
  · refine ⟨br, ?_, by simpa using hr, rfl⟩
    rw [read, if_pos rfl, show v = 0 by simpa using hv]
  obtain ⟨b1, hp, hr1, hrem1, hbuf1⟩ := peek_spec hr n hn
  obtain ⟨b2, hs, hr2, hrem2⟩ := skip_spec hr1 n (by omega) (by simp at hbuf1; omega)
  refine ⟨b2, ?_, ?_, by omega⟩
  · rw [read, if_neg (by omega), hp]
    simp only [hs]
    rw [append_assoc, take_append_of_le_length (by simp), take_of_length_le (by simp), toNat_ofNat hv]
  · rwa [drop_append_of_le_length (by simp), drop_of_length_le (by simp)] at hr2

theorem takeBuffered_spec {T : List Bool} {rest : List UInt8} : ∀ (data : List UInt8) (acc : ℕ) (out : List UInt8)
    (U : List Bool), U.length ≤ 39 → U.length % 8 = 0 → acc < 2 ^ 64 →
    ofNat 64 acc = U ++ List.replicate (64 - U.length) false → U ++ ofBytes rest = ofBytes data ++ T →
    ∃ n acc' U', takeBuffered data.length acc U.length out =
        (data.length - n, acc', U'.length, out ++ data.take n) ∧
      n ≤ data.length ∧ (n = data.length ∨ U' = []) ∧ U'.length ≤ 39 ∧ acc' < 2 ^ 64 ∧
      ofNat 64 acc' = U' ++ List.replicate (64 - U'.length) false ∧
      U' ++ ofBytes rest = ofBytes (data.drop n) ++ T
  | [], acc, out, U, hb, _, hlt, ha, hU => ⟨0, acc, U, by simp [takeBuffered], le_rfl, Or.inl rfl, hb, hlt, ha, hU⟩
  | d :: data, acc, out, U, hb, h8, hlt, ha, hU => by
    rw [length_cons, takeBuffered]
    split_ifs with h
    · -- the first buffered byte is the first byte of the run
      have hsplit : U.take 8 = ofNat 8 d.toNat ∧ U.drop 8 ++ ofBytes rest = ofBytes data ++ T := by
        have h1 := congrArg (List.take 8) hU
        have h2 := congrArg (List.drop 8) hU
        rw [ofBytes_cons, append_assoc, take_append_of_le_length (by omega),
          take_append_of_le_length (by simp), take_of_length_le (l := ofNat 8 d.toNat) (by simp)] at h1
        rw [drop_append_of_le_length (by omega)] at h2
        exact ⟨h1, h2⟩
      have hbyte : UInt8.ofNat (acc >>> 56) = d := by
        have h1 : ofNat 8 (acc >>> 56) = ofNat 8 d.toNat := by
          rw [← hsplit.1, show (56 : ℕ) = 64 - 8 by rfl, ← take_ofNat (by omega), ha,
            take_append_of_le_length (by omega)]
        refine singleton_injective (ofBytes_injective ?_)
        rw [ofBytes_ofNat_byte, h1, ofBytes_cons, ofBytes_nil, append_nil]
      have hacc : ofNat 64 (acc <<< 8 % 2 ^ 64) = U.drop 8 ++ List.replicate (64 - (U.drop 8).length) false := by
        rw [ofNat_shiftLeft_mod (by omega), ha, drop_append_of_le_length (by omega), append_assoc,
          replicate_append_replicate, length_drop]
        congr 2
        omega
      obtain ⟨n, acc', U', h1, h2, h3, h4, h5, h6, h7⟩ := takeBuffered_spec data (acc <<< 8 % 2 ^ 64)
        (out ++ [d]) (U.drop 8) (by rw [length_drop]; omega) (by rw [length_drop]; omega)
        (Nat.mod_lt _ (by decide)) hacc hsplit.2
      refine ⟨n + 1, acc', U', ?_, by omega, by rcases h3 with h3 | h3 <;> simp [h3], h4, h5, h6, by simpa using h7⟩
      rw [hbyte, ← length_drop, h1]
      simp
    · have hnil : U = [] := length_eq_zero_iff.mp (by omega)
      refine ⟨0, acc, U, ?_, Nat.zero_le _, Or.inr hnil, hb, hlt, ha, by simpa using hU⟩
      simp

/-- An unencoded run is read back from behind the rest of the byte that its
header ends in. -/
theorem readAligned_spec {data : List UInt8} {T pad : List Bool} (hr : br.Reads (pad ++ ofBytes data ++ T))
    (hpad : pad.length < 8) (hT : T.length % 8 = 0) (hrem : 8 * data.length ≤ br.remaining - pad.length)
    (out : List UInt8) :
    ∃ br', br.readAligned data.length out = .ok (out ++ data, br') ∧ br'.Reads T ∧
      br'.remaining = br.remaining - (pad.length + 8 * data.length) := by
  obtain ⟨hb, hlt, U, hU, ha, hB⟩ := hr
  have hmod : br.buffered % 8 = pad.length := by
    have := congrArg List.length hB
    simp only [length_append, ofBytes_length] at this
    omega
  have hdrop : U.drop pad.length ++ ofBytes br.r.rest = ofBytes data ++ T := by
    have h := congrArg (List.drop pad.length) hB
    rw [append_assoc, drop_left, drop_append_of_le_length (by omega)] at h
    exact h.symm
  have hacc : ofNat 64 (br.acc <<< pad.length % 2 ^ 64) =
      U.drop pad.length ++ List.replicate (64 - (U.drop pad.length).length) false := by
    rw [ofNat_shiftLeft_mod (by omega), ha, drop_append_of_le_length (by omega), append_assoc,
      replicate_append_replicate, length_drop]
    congr 2
    omega
  obtain ⟨n, acc', U', h1, h2, h3, h4, h5, h6, h7⟩ := takeBuffered_spec data (br.acc <<< pad.length % 2 ^ 64) out
    (U.drop pad.length) (by rw [length_drop]; omega) (by rw [length_drop]; omega)
    (Nat.mod_lt _ (by decide)) hacc hdrop
  -- what the buffer did not hold is in front of the unread bytes
  have hrest : ∃ rest', br.r.rest = data.drop n ++ rest' ∧ U' ++ ofBytes rest' = T := by
    rcases h3 with h3 | h3
    · exact ⟨br.r.rest, by simp [h3], by simpa [h3] using h7⟩
    · subst h3
      rw [nil_append] at h7
      have hlen := congrArg List.length h7
      simp only [ofBytes_length, length_append, length_drop] at hlen
      have hsplit := take_append_drop (data.length - n) br.r.rest
      rw [← hsplit, ofBytes_append] at h7
      obtain ⟨e1, e2⟩ := append_inj h7 (by simp only [ofBytes_length, length_take, length_drop]; omega)
      refine ⟨br.r.rest.drop (data.length - n), ?_, by simpa using e2⟩
      rw [← ofBytes_injective e1, hsplit]
  obtain ⟨rest', hr1, hr2⟩ := hrest
  have hbytes : Reader.bytes (data.length - n) br.r =
      .ok (data.drop n, ⟨rest', br.r.offset + (data.length - n)⟩) := by
    have := Reader.bytes_append' (n := data.length - n) (data.drop n) rest' br.r.offset (by simp)
    rwa [← hr1] at this
  refine ⟨⟨⟨rest', br.r.offset + (data.length - n)⟩, acc', U'.length, br.remaining - (pad.length + 8 * data.length)⟩,
    ?_,
    ⟨h4, h5, U', rfl, h6, hr2.symm⟩, rfl⟩
  have hsub : br.buffered - pad.length = (U.drop pad.length).length := by rw [length_drop, hU]
  simp only [readAligned, hmod, hsub, h1, hbytes]
  rw [if_neg (by omega), append_assoc, take_append_drop]
  congr 3
  omega

end BitReader

end Zgfx
end Codec
end Farland
