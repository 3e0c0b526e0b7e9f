/-
# The size of a ZGFX message

What `compress` writes, in every state a compressor can get into: a segment is
never longer than its data and a header byte, because the raw form is taken
instead, and the framing adds one byte to a single segment and seven, plus four
for each segment, to several.

Key theorems: `encodeSegments_segmented`, `compress_message`,
**`compress_size`**.
-/
import Farland.Codec.Zgfx.RoundTrip

namespace Farland
namespace Codec
namespace Zgfx

namespace Compressor

open List Writer

/-- The compressor after some operations; `none` is a failed assertion. -/
def after : Compressor → List Op → Option Compressor
  | c, [] => some c
  | c, .reset :: ops => after c.reset ops
  | c, .compress data :: ops =>
    match c.compress data with
    | none => none
    | some (_, c) => after c ops

/-- RDP_DATA_SEGMENTs: each behind its size. -/
def framed (segments : List (List UInt8)) : List UInt8 :=
  segments.flatMap fun segment => u32le segment.length ++ segment

theorem framed_length : ∀ segments : List (List UInt8),
    (framed segments).length = 4 * segments.length + (segments.map List.length).sum
  | [] => rfl
  | segment :: segments => by
    rw [framed, flatMap_cons, length_append, length_append, u32le_length, ← framed,
      framed_length segments, length_cons, map_cons, sum_cons]
    ring

/-- Segments for `n` bytes of data, none longer than its share and a header. -/
structure Segmented (m n : ℕ) (segments : List (List UInt8)) : Prop where
  count : segments.length = segmentCount m n
  sum : (segments.map List.length).sum ≤ n + segments.length
  bounds : ∀ segment ∈ segments, 1 ≤ segment.length ∧ segment.length ≤ m + 1

theorem Segmented.nil {m : ℕ} (hm : 1 ≤ m) : Segmented m 0 [] :=
  ⟨(segmentCount_zero hm).symm, le_rfl, nofun⟩

theorem Segmented.cons {m n : ℕ} {out : List UInt8} {segments : List (List UInt8)} (hm : 1 ≤ m) (hn : 0 < n)
    (hpos : 1 ≤ out.length) (hout : out.length ≤ min n m + 1) (h : Segmented m (n - min n m) segments) :
    Segmented m n (out :: segments) := by
  refine ⟨?_, ?_, fun segment hs => ?_⟩
  · rw [length_cons, h.count, segmentCount_drop hm hn]
  · have hsum := h.sum
    rw [map_cons, sum_cons, length_cons]
    omega
  · rcases mem_cons.mp hs with rfl | hs
    · omega
    · exact h.bounds segment hs

/-- **The segments of a message**, and a compressor that goes on. -/
theorem encodeSegments_segmented : ∀ (fuel : ℕ) {c : Compressor} {h data : List UInt8}, c.Tracks h →
    data.length ≤ fuel →
    ∃ segments c', c.encodeSegments fuel data = some (framed segments, c') ∧
      Segmented c.p.maxSegment data.length segments ∧ c'.Tracks (h ++ data) ∧ c'.variant = c.variant
  | 0, c, h, data, ht, hfuel => by
    obtain rfl : data = [] := length_eq_zero_iff.mp (Nat.le_zero.mp hfuel)
    exact ⟨[], c, rfl, .nil (params_bounds c.variant).1, by rwa [append_nil], rfl⟩
  | fuel + 1, c, h, data, ht, hfuel => by
    have hmax : 1 ≤ c.p.maxSegment := (params_bounds c.variant).1
    rw [encodeSegments]
    split_ifs with hnil
    · subst hnil
      exact ⟨[], c, rfl, .nil hmax, by rwa [append_nil], rfl⟩
    · dsimp only
      have hpos : 0 < data.length := length_pos_iff.mpr hnil
      generalize hsegment : data.take (min data.length c.p.maxSegment) = segment
      have hlength : segment.length = min data.length c.p.maxSegment := by
        rw [← hsegment, length_take]
        omega
      have hsplit : segment ++ data.drop segment.length = data := by
        rw [hlength, ← hsegment, take_append_drop]
      obtain ⟨out, c', hout, -, hle, hpos', ht', hvariant, -⟩ := encodeSegment_spec ht segment (by omega)
      have hfuel' : (data.drop segment.length).length ≤ fuel := by
        rw [length_drop]
        omega
      obtain ⟨segments, c'', hrest, hsegments, ht'', hvariant'⟩ := encodeSegments_segmented fuel ht' hfuel'
      have hp : c'.p = c.p := by rw [p, hvariant, p]
      rw [hp, length_drop, hlength] at hsegments
      rw [append_assoc, hsplit] at ht''
      rw [hout]
      dsimp only
      rw [hrest]
      refine ⟨out :: segments, c'', rfl, ?_, ht'', hvariant'.trans hvariant⟩
      exact .cons hmax hpos hpos' (by omega) hsegments

/-- How a message looks: one segment, or several behind their number and the
size of the data, each behind its own size. -/
def Message (m : ℕ) (data message : List UInt8) : Prop :=
  if data.length ≤ m then
    ∃ segment, message = u8 descriptorSingle ++ segment ∧ message.length ≤ data.length + 2
  else
    ∃ segments, message = u8 descriptorMultipart ++ u16le segments.length ++ u32le data.length ++
        framed segments ∧
      segments.length < 2 ^ 16 ∧ data.length < 2 ^ 32 ∧ (∀ segment ∈ segments, segment.length < 2 ^ 32) ∧
      segments.length = segmentCount m data.length ∧ message.length ≤ data.length + 7 + 5 * segmentCount m data.length

/-- **A message within the limit is compressed**, and the compressor follows
the history. -/
theorem compress_message {c : Compressor} {h data : List UInt8} (ht : c.Tracks h)
    (hsize : data.length ≤ zgfxMaxInputSize c.variant) :
    ∃ message c', c.compress data = some (message, c') ∧ (data ≠ [] → Message c.p.maxSegment data message) ∧
      c'.Tracks (h ++ data) ∧ c'.variant = c.variant := by
  rw [compress]
  rcases eq_or_ne data [] with rfl | hnil
  · exact ⟨_, c, rfl, fun hne => absurd rfl hne, by rwa [append_nil], rfl⟩
  unfold Message
  split_ifs with hsingle
  · obtain ⟨out, c', hout, -, hle, -, ht', hvariant, -⟩ := encodeSegment_spec ht data hsingle
    rw [hout]
    refine ⟨_, c', rfl, fun _ => ⟨out, rfl, ?_⟩, ht', hvariant⟩
    rw [length_append, u8_length]
    omega
  · obtain ⟨segments, c', hout, hsegments, ht', hvariant⟩ := encodeSegments_segmented data.length ht le_rfl
    obtain ⟨-, hcount, hdata, -⟩ := segmentCount_bounds hsize (Nat.lt_of_not_le hsingle)
    have hmax := (params_bounds c.variant).2.1
    rw [hout]
    refine ⟨_, c', rfl, fun _ => ⟨segments, ?_, ?_, hdata, fun segment hs => ?_, hsegments.count, ?_⟩, ht', hvariant⟩
    · rw [hsegments.count, segmentCount]
    · rw [hsegments.count]
      exact hcount
    · have hbound : segment.length ≤ (params c.variant).maxSegment + 1 := (hsegments.bounds segment hs).2
      omega
    · have hsum := hsegments.sum
      simp only [length_append, u8_length, u16le_length, u32le_length, framed_length]
      rw [hsegments.count] at hsum ⊢
      omega

/-- What follows a history still follows one after any operations. -/
theorem after_tracks : ∀ (ops : List Op) {c c' : Compressor} {h : List UInt8}, c.Tracks h → c.after ops = some c' →
    (∃ h', c'.Tracks h') ∧ c'.variant = c.variant
  | [], c, c', h, ht, hafter => by
    obtain rfl := Option.some.inj hafter
    exact ⟨⟨h, ht⟩, rfl⟩
  | .reset :: ops, c, c', h, ht, hafter => after_tracks (c := c.reset) ops c.reset_tracks hafter
  | .compress data :: ops, c, c', h, ht, hafter => by
    rw [after] at hafter
    by_cases hsize : data.length ≤ zgfxMaxInputSize c.variant
    · obtain ⟨message, c₁, hmessage, -, ht₁, hvariant⟩ := compress_message ht hsize
      rw [hmessage] at hafter
      obtain ⟨htracks, hvariant'⟩ := after_tracks ops ht₁ hafter
      exact ⟨htracks, hvariant'.trans hvariant⟩
    · rw [compress, if_neg hsize] at hafter
      cases hafter

/-- **How long a message gets**, whatever the compressor did before. -/
theorem compress_size (variant : ZgfxVariant) (mode : ZgfxMode) (ops : List Op) {c : Compressor} {data : List UInt8}
    (hafter : (new variant mode).after ops = some c) (hpos : 1 ≤ data.length)
    (hsize : data.length ≤ zgfxMaxInputSize variant) :
    ∃ message c', c.compress data = some (message, c') ∧ Message (params variant).maxSegment data message := by
  obtain ⟨⟨h, ht⟩, hvariant⟩ := after_tracks ops (new_tracks variant mode) hafter
  replace hvariant : c.variant = variant := hvariant
  subst hvariant
  obtain ⟨message, c', hmessage, hlooks, -⟩ := compress_message ht hsize
  exact ⟨message, c', hmessage, hlooks (length_pos_iff.mp hpos)⟩

/-- A second message, behind a reset. -/
theorem compress_size_two :
    ∃ c, (new .rdp8Lite .compress).after [.compress [1, 2, 3], .reset, .compress []] = some c ∧
      ∃ message c', c.compress [7, 7, 7, 7] = some (message, c') ∧ Message 8192 [7, 7, 7, 7] message := by
  obtain ⟨c, hc⟩ : ∃ c, (new .rdp8Lite .compress).after [.compress [1, 2, 3], .reset, .compress []] = some c := by
    rw [← Option.isSome_iff_exists]
    decide +kernel
  exact ⟨c, hc, compress_size .rdp8Lite .compress _ hc (by decide) (by decide)⟩

end Compressor
end Zgfx
end Codec
end Farland
