/-
# A ZGFX channel is lossless

One compressor and one decompressor at the two ends of a channel, over whole
runs. Both keep the history since the last reset, the one as a sliding window,
the other as a ring; `Synced` ties them to the same stream, and every operation
keeps it.

Main theorem: **`run_roundTrip`**.
-/
import Farland.Codec.Zgfx.Compressor
import Farland.Codec.Zgfx.Decompressor

namespace Farland
namespace Codec
namespace Zgfx

open List Decompressor

/-- An operation on the channel. -/
inductive Op where
  | compress (data : List UInt8)
  | reset
  deriving DecidableEq

/-- The message an operation carries. -/
def Op.message? : Op → Option (List UInt8)
  | .compress data => some data
  | .reset => none

/-- Feeds each compressed message to the decompressor, and returns what it
decompresses to; `none` if an assertion of the compressor or a `decompress`
fails. -/
def run : Compressor → Decompressor → List Op → Option (List (List UInt8))
  | _, _, [] => some []
  | c, d, .reset :: ops => run c.reset d.reset ops
  | c, d, .compress data :: ops =>
    match c.compress data with
    | none => none
    | some (message, c) =>
      match d.decompress message with
      | .error _ => none
      | .ok (out, d) => (run c d ops).map (out :: ·)

/-- Both ends hold the same history. -/
structure Synced (c : Compressor) (d : Decompressor) (h : List UInt8) : Prop where
  compressor : c.Tracks h
  decompressor : d.Tracks h
  variant : c.variant = d.variant

variable {c : Compressor} {d : Decompressor} {h data : List UInt8}

theorem Synced.p_eq (hs : Synced c d h) : c.p = d.p := by rw [Compressor.p, hs.variant, p]

theorem decodeSegment_encodes {out acc : List UInt8} {o limit : ℕ} {e : Errc} (ht : d.Tracks h)
    (he : Compressor.Encodes d.p h data out) (hseg : data.length ≤ d.p.maxSegment)
    (hlim : acc.length + data.length ≤ limit) : d.DecodesTo ⟨out, o⟩ acc limit e h data := by
  rcases he with rfl | ⟨ts, body, u, rfl, hu, hbody, hts, hexp⟩
  · exact decodeSegment_raw ht hseg hlim
  · exact decodeSegment_compressed ht hu hbody hts hexp hseg hlim

/-- One segment through both ends. -/
theorem segment_roundTrip (acc data : List UInt8) (limit : ℕ) (e : Errc) (o : ℕ) (hs : Synced c d h)
    (hseg : data.length ≤ d.p.maxSegment) (hlim : acc.length + data.length ≤ limit) :
    ∃ out c' d', c.encodeSegment data = some (out, c') ∧ 1 ≤ out.length ∧ out.length ≤ data.length + 1 ∧
      d.decodeSegment ⟨out, o⟩ acc limit e = .ok (d', acc ++ data) ∧ Synced c' d' (h ++ data) ∧
      d'.variant = d.variant ∧ d'.maxOutput = d.maxOutput := by
  obtain ⟨out, c', henc, hout, hle, hpos, htc, hv, _⟩ :=
    Compressor.encodeSegment_spec hs.compressor data (by rw [hs.p_eq]; exact hseg)
  rw [hs.p_eq] at hout
  obtain ⟨d', hdec, htd, hv', hm'⟩ := decodeSegment_encodes (o := o) (e := e) hs.decompressor hout hseg hlim
  exact ⟨out, c', d', henc, hpos, hle, hdec, ⟨htc, htd, by rw [hv, hs.variant, hv']⟩, hv', hm'⟩

/-- The number of segments of a message. -/
def segmentCount (m n : ℕ) : ℕ := (n + m - 1) / m

theorem segmentCount_drop {m n : ℕ} (hm : 1 ≤ m) (hn : 0 < n) :
    segmentCount m n = segmentCount m (n - min n m) + 1 := by
  simp only [segmentCount]
  rcases Nat.lt_or_ge m n with h1 | h1
  · rw [← Nat.add_div_right _ (by omega)]
    congr 1
    omega
  · rw [Nat.min_eq_left h1, Nat.sub_self, Nat.zero_add, Nat.div_eq_of_lt (a := m - 1) (by omega)]
    exact Nat.div_eq_of_lt_le (by omega) (by omega)

theorem segmentCount_zero {m : ℕ} (hm : 1 ≤ m) : segmentCount m 0 = 0 := Nat.div_eq_of_lt (by omega)

/-- The segments of a MULTIPART message through both ends. -/
theorem segments_roundTrip (size : ℕ) : ∀ (fuel : ℕ) (c : Compressor) (d : Decompressor) (h data acc : List UInt8)
    (o : ℕ), Synced c d h → data.length ≤ fuel → acc.length + data.length ≤ size →
    ∃ out c' d', c.encodeSegments fuel data = some (out, c') ∧
      5 * segmentCount d.p.maxSegment data.length ≤ out.length ∧
      decodeSegments size (segmentCount d.p.maxSegment data.length) d ⟨out, o⟩ acc =
        .ok (d', ⟨[], o + out.length⟩, acc ++ data) ∧
      Synced c' d' (h ++ data) ∧ d'.variant = d.variant ∧ d'.maxOutput = d.maxOutput := by
  intro fuel
  induction fuel with
  | zero =>
    intro c d h data acc o hs hf _
    obtain rfl : data = [] := length_eq_zero_iff.mp (Nat.le_zero.mp hf)
    rw [length_nil, segmentCount_zero d.maxSegment_bounds.1]
    exact ⟨[], c, d, rfl, by simp, by simp [decodeSegments], by simpa using hs, rfl, rfl⟩
  | succ fuel ih =>
    intro c d h data acc o hs hf hsize
    obtain ⟨hm, hm16⟩ := d.maxSegment_bounds
    rw [Compressor.encodeSegments]
    split_ifs with hnil
    · subst hnil
      rw [length_nil, segmentCount_zero hm]
      exact ⟨[], c, d, rfl, by simp, by simp [decodeSegments], by simpa using hs, rfl, rfl⟩
    have hpos : 0 < data.length := length_pos_iff.mpr hnil
    rw [hs.p_eq]
    generalize hsg : data.take (min data.length d.p.maxSegment) = segment
    have hlen : segment.length = min data.length d.p.maxSegment := by rw [← hsg, length_take]; omega
    have hsplit : segment ++ data.drop segment.length = data := by rw [hlen, ← hsg, take_append_drop]
    have hcount : segmentCount d.p.maxSegment data.length =
        segmentCount d.p.maxSegment (data.drop segment.length).length + 1 := by
      rw [length_drop, hlen, segmentCount_drop hm hpos]
    obtain ⟨out, c1, d1, henc, hpos1, hle1, hdec, hs1, hv1, hm1⟩ :=
      segment_roundTrip acc segment size .invalidLength (o + 4)
      hs (by omega) (by omega)
    have hp1 : d1.p = d.p := by rw [p, hv1, p]
    obtain ⟨out', c', d', henc', hlen', hdec', hs', hv', hm'⟩ := ih c1 d1 (h ++ segment) (data.drop segment.length)
      (acc ++ segment) (o + 4 + out.length) hs1 (by rw [length_drop]; omega)
      (by rw [length_append, length_drop]; omega)
    rw [append_assoc, hsplit] at hdec' hs'
    rw [hp1] at hlen' hdec'
    simp only [henc, henc']
    refine ⟨_, c', d', rfl, by rw [hcount]; simp only [length_append, Writer.u32le_length]; omega, ?_, hs',
      hv'.trans hv1, hm'.trans hm1⟩
    have hu32 := Reader.u32le_append out.length (out ++ out') o (by omega)
    have hsub := Reader.sub_append out out' (o + 4) rfl
    rw [hcount, decodeSegments, Writer.u32le, append_assoc]
    simp only [hu32, hsub, hdec, hdec', bind, Except.bind]
    rw [length_append, length_append, LittleEndian.leBytes_length, Nat.add_assoc o, Nat.add_assoc o,
      Nat.add_assoc 4]

/-- A message within the input limit has a segment count and a size that fit
their fields. -/
theorem segmentCount_bounds {v : ZgfxVariant} {n : ℕ} (hin : n ≤ zgfxMaxInputSize v) (hn : (params v).maxSegment < n) :
    1 ≤ segmentCount (params v).maxSegment n ∧ segmentCount (params v).maxSegment n < 65536 ∧ n < 4294967296 ∧
      n ≤ segmentCount (params v).maxSegment n * (params v).maxSegment := by
  cases v with
  | rdp8Lite => simp only [zgfxMaxInputSize, params] at hin hn; omega
  | rdp8 =>
    simp only [zgfxMaxInputSize, params, maxSegmentSize, maxSegmentCount, segmentCount] at hin hn ⊢
    omega

/-- **One message through both ends.** -/
theorem message_roundTrip (hs : Synced c d h) (hin : data.length ≤ zgfxMaxInputSize d.variant)
    (hout : data.length ≤ d.maxOutput) :
    ∃ message c' d', c.compress data = some (message, c') ∧ d.decompress message = .ok (data, d') ∧
      Synced c' d' (h ++ data) ∧ d'.variant = d.variant ∧ d'.maxOutput = d.maxOutput := by
  rw [Compressor.compress, hs.variant, hs.p_eq]
  split_ifs with hnil hsingle
  · -- an empty message is a compressed segment without tokens
    subst hnil
    obtain ⟨d', hdec, htd, hv', hm'⟩ : d.DecodesTo ⟨Writer.u8 (d.p.type ||| packetCompressed) ++
      ([] ++ [UInt8.ofNat 0]), 1⟩
        [] d.maxOutput .limitExceeded h [] :=
      decodeSegment_compressed hs.decompressor (Nat.zero_le 7) rfl (by simp) (.nil h) (by simp) (by simp)
    refine ⟨_, c, d', rfl, ?_, ⟨by simpa using hs.compressor, htd, by rw [hs.variant, hv']⟩, hv', hm'⟩
    exact decompress_single hdec
  · obtain ⟨out, c', d', henc, _, _, hdec, hs', hv', hm'⟩ := segment_roundTrip [] data d.maxOutput .limitExceeded 1
      hs hsingle (by simpa using hout)
    rw [henc]
    exact ⟨_, c', d', rfl, decompress_single hdec, hs', hv', hm'⟩
  · obtain ⟨out, c', d', henc, hlen, hdec, hs', hv', hm'⟩ := segments_roundTrip data.length data.length c d h
      data [] 7 hs le_rfl (by simp)
    rw [henc]
    refine ⟨_, c', d', rfl, ?_, hs', hv', hm'⟩
    obtain ⟨h1, h2, h3, h4⟩ := segmentCount_bounds hin (Nat.lt_of_not_le hsingle)
    exact decompress_multipart h1 h2 h3 hout h4 hlen hdec

/-- Every operation of the run is within the limits of both ends. -/
def WithinLimits (variant : ZgfxVariant) (maxOutput : ℕ) (ops : List Op) : Prop :=
  ∀ data, Op.compress data ∈ ops → data.length ≤ zgfxMaxInputSize variant ∧ data.length ≤ maxOutput

theorem run_synced {variant : ZgfxVariant} {maxOutput : ℕ} : ∀ (ops : List Op) (c : Compressor) (d : Decompressor)
    (h : List UInt8), Synced c d h → d.variant = variant → d.maxOutput = maxOutput →
    WithinLimits variant maxOutput ops → run c d ops = some (ops.filterMap Op.message?)
  | [], _, _, _, _, _, _, _ => rfl
  | .reset :: ops, c, d, h, hs, hv, hm, hl => by
    rw [run, run_synced ops c.reset d.reset [] ⟨c.reset_tracks, Ring.Holds.nil _, hs.variant⟩ hv hm
      fun data hd => hl data (mem_cons_of_mem _ hd)]
    rfl
  | .compress data :: ops, c, d, h, hs, hv, hm, hl => by
    obtain ⟨hin, hout⟩ := hl data (mem_cons_self ..)
    obtain ⟨message, c', d', hc, hd, hs', hv', hm'⟩ := message_roundTrip hs (hv ▸ hin) (hm ▸ hout)
    rw [run, hc]
    simp only [hd]
    rw [run_synced ops c' d' _ hs' (hv'.trans hv) (hm'.trans hm) fun data hd => hl data (mem_cons_of_mem _ hd)]
    rfl

/-- **A channel returns every message as it was**, whatever was sent before
and wherever both ends were reset. -/
theorem run_roundTrip (variant : ZgfxVariant) (mode : ZgfxMode) (maxOutput : ℕ) (ops : List Op)
    (hl : WithinLimits variant maxOutput ops) :
    run (Compressor.new variant mode) { variant := variant, maxOutput := maxOutput } ops =
      some (ops.filterMap Op.message?) :=
  run_synced ops _ _ [] ⟨Compressor.new_tracks variant mode, Ring.Holds.nil _, rfl⟩ rfl rfl hl

/-- A repeated message, a reset and an empty message. -/
theorem run_roundTrip_three : WithinLimits .rdp8 defaultMaxOutputSize [.compress [1, 2, 3, 1, 2, 3], .reset,
    .compress []] ∧
    run (Compressor.new .rdp8 .compress) { variant := .rdp8, maxOutput := defaultMaxOutputSize }
      [.compress [1, 2, 3, 1, 2, 3], .reset, .compress []] = some [[1, 2, 3, 1, 2, 3], []] := by
  have hl : WithinLimits .rdp8 defaultMaxOutputSize [.compress [1, 2, 3, 1, 2, 3], .reset, .compress []] := by
    intro data hd
    simp only [mem_cons, Op.compress.injEq, reduceCtorEq, not_mem_nil, or_false, false_or] at hd
    rcases hd with rfl | rfl <;> decide
  exact ⟨hl, run_roundTrip .rdp8 .compress defaultMaxOutputSize _ hl⟩

end Zgfx
end Codec
end Farland
