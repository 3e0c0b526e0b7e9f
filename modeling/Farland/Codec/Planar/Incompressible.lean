/-
# Pictures that do not compress

The longest stream that the automatic mode makes of a picture is the raw one:
where no two neighbours of a scanline have the same symbol there are no runs,
and the segments of raw values are longer than the values.

Key theorems: `writeRleScanline_length`, **`encode_striped`**.
-/
import Farland.Codec.Planar.RoundTrip

namespace Farland
namespace Codec
namespace Planar

open List

open Clear (ImageView)

/-! ### Scanlines -/

/-- No two neighbours are equal. -/
abbrev Restless (symbols : List UInt8) : Prop := symbols.IsChain (· ≠ ·)

theorem writeLastSegments_length {raw bytes : List UInt8} {run : ℕ} (hraw : raw ≠ [])
    (h : writeLastSegments raw run = some bytes) : raw.length < bytes.length := by
  unfold writeLastSegments at h
  rw [if_neg hraw] at h
  obtain ⟨control, _, h⟩ := Option.bind_eq_some_iff.mp h
  obtain ⟨rest, _, h⟩ := Option.bind_eq_some_iff.mp h
  obtain rfl := Option.some.inj h
  simp only [length_cons, length_append]
  omega

theorem writeSegmentsLoop_length : ∀ (fuel : ℕ) {raw bytes : List UInt8} {run : ℕ}, raw ≠ [] →
    writeSegmentsLoop fuel raw run = some bytes → raw.length < bytes.length
  | 0, _, _, _, hraw, h => writeLastSegments_length hraw h
  | fuel + 1, raw, bytes, run, hraw, h => by
    unfold writeSegmentsLoop at h
    by_cases hlong : maxRawCount < raw.length
    · rw [if_pos hlong] at h
      obtain ⟨control, _, h⟩ := Option.bind_eq_some_iff.mp h
      obtain ⟨rest, hrest, h⟩ := Option.bind_eq_some_iff.mp h
      obtain rfl := Option.some.inj h
      have hdrop : raw.drop maxRawCount ≠ [] := by
        rw [Ne, drop_eq_nil_iff]
        omega
      have hless := writeSegmentsLoop_length fuel hdrop hrest
      rw [length_drop] at hless
      simp only [length_cons, length_append, length_take]
      omega
    · rw [if_neg hlong] at h
      exact writeLastSegments_length hraw h

theorem writeSegments_length {raw bytes : List UInt8} {run : ℕ} (hraw : raw ≠ [])
    (h : writeSegments raw run = some bytes) : raw.length < bytes.length := by
  unfold writeSegments at h
  obtain ⟨_, _, h⟩ := Option.bind_eq_some_iff.mp h
  exact writeSegmentsLoop_length _ hraw h

/-- The first of restless symbols is a group of its own. -/
theorem group_of_restless {symbol : UInt8} {symbols : List UInt8} (h : Restless (symbol :: symbols)) :
    symbols.takeWhile (· == symbol) = [] := by
  cases symbols with
  | nil => rfl
  | cons next rest =>
    have hne : symbol ≠ next := h.rel
    simpa using fun heq => hne heq.symm

/-- Restless symbols all wait for the end of the scanline. -/
theorem writeRleScanlineLoop_restless : ∀ (fuel : ℕ) (first : Bool) (pending symbols : List UInt8),
    symbols.length ≤ fuel → Restless symbols → pending ++ symbols ≠ [] →
      writeRleScanlineLoop fuel first pending symbols = writeSegments (pending ++ symbols) 0
  | fuel, first, pending, [], _, _, hne => by
    rw [append_nil] at hne ⊢
    unfold writeRleScanlineLoop
    rw [if_neg hne]
  | 0, _, _, _ :: _, hfuel, _, _ => by
    rw [length_cons] at hfuel
    omega
  | fuel + 1, first, pending, symbol :: symbols, hfuel, hchain, hne => by
    rw [length_cons] at hfuel
    have hgroup := group_of_restless hchain
    have hzeros : ¬ (first && symbol == 0 && decide (minRun ≤ 1)) = true := by
      have hshort : decide (minRun ≤ 1) = false := rfl
      rw [hshort, Bool.and_false]
      exact Bool.false_ne_true
    have hrun : ¬ minRun < 1 := by decide
    unfold writeRleScanlineLoop
    rw [hgroup, length_nil, if_neg hzeros, if_neg hrun, take_succ_cons, take_zero,
      drop_succ_cons, drop_zero, writeRleScanlineLoop_restless fuel false _ symbols (by omega) hchain.tail
        (by simp), append_assoc, singleton_append]

/-- **A scanline without equal neighbours grows.** -/
theorem writeRleScanline_length {symbols bytes : List UInt8} (hchain : Restless symbols) (hne : symbols ≠ [])
    (h : writeRleScanline symbols = some bytes) : symbols.length < bytes.length := by
  unfold writeRleScanline at h
  rw [writeRleScanlineLoop_restless _ true [] symbols le_rfl hchain hne] at h
  exact writeSegments_length hne h

/-! ### Planes -/

variable (width : ℕ)

/-- All scanlines of a plane are restless. -/
def RestlessPlane : Option (List UInt8) → List (List UInt8) → Prop
  | _, [] => True
  | above, row :: rows => (Restless (symbolsOf above row) ∧ (symbolsOf above row).length = width) ∧
      RestlessPlane (some row) rows

theorem encodeRlePlane_length {width : ℕ} (hwidth : 0 < width) : ∀ {rows : List (List UInt8)}
    {above : Option (List UInt8)} {bytes : List UInt8}, RestlessPlane width above rows →
      encodeRlePlane above rows = some bytes → rows.length * (width + 1) ≤ bytes.length
  | [], _, _, _, _ => by simp
  | row :: rows, above, bytes, hplane, h => by
    obtain ⟨⟨hchain, hlength⟩, hrest⟩ := hplane
    unfold encodeRlePlane at h
    obtain ⟨scanline, hscanline, h⟩ := Option.bind_eq_some_iff.mp h
    obtain ⟨rest, hrestBytes, h⟩ := Option.bind_eq_some_iff.mp h
    obtain rfl := Option.some.inj h
    have hne : symbolsOf above row ≠ [] := by
      rintro hempty
      rw [hempty, length_nil] at hlength
      omega
    have hfirst := writeRleScanline_length hchain hne hscanline
    have hothers := encodeRlePlane_length hwidth hrest hrestBytes
    rw [length_cons, Nat.succ_mul, length_append]
    omega

theorem encodeRlePlanes_length {width height : ℕ} (hwidth : 0 < width) : ∀ {planes : List (List (List UInt8))}
    {bytes : List UInt8}, (∀ plane ∈ planes, plane.length = height ∧ RestlessPlane width none plane) →
      encodeRlePlanes planes = some bytes → planes.length * (height * (width + 1)) ≤ bytes.length
  | [], _, _, _ => by simp
  | plane :: planes, bytes, hplanes, h => by
    obtain ⟨hheight, hplane⟩ := hplanes plane mem_cons_self
    unfold encodeRlePlanes at h
    obtain ⟨first, hfirst, h⟩ := Option.bind_eq_some_iff.mp h
    obtain ⟨rest, hrest, h⟩ := Option.bind_eq_some_iff.mp h
    obtain rfl := Option.some.inj h
    have hone := encodeRlePlane_length hwidth hplane hfirst
    have hothers := encodeRlePlanes_length hwidth (fun p hp => hplanes p (mem_cons_of_mem _ hp)) hrest
    rw [hheight] at hone
    rw [length_cons, Nat.succ_mul, length_append]
    omega

/-! ### Stripes -/

/-- Every second column is dark, and the others get brighter row by row. -/
def stripe (x y : ℕ) : UInt8 := UInt8.ofNat (x % 2 * y)

theorem deltaToWire_stripe_dark {x : ℕ} (hx : x % 2 = 0) (y : ℕ) : deltaToWire (stripe x y) (stripe x (y + 1)) = 0 := by
  unfold stripe
  rw [hx, Nat.zero_mul, Nat.zero_mul]
  rfl

theorem deltaToWire_stripe_bright {x : ℕ} (hx : x % 2 = 1) (y : ℕ) : deltaToWire (stripe x y)
    (stripe x (y + 1)) = 1 := by
  have hall : ∀ n : Fin 256, deltaToWire (UInt8.ofNat n) (UInt8.ofNat n + 1) = 1 := by decide +kernel
  have hsame : ∀ n : ℕ, UInt8.ofNat n = UInt8.ofNat (n % 256) := fun n => by
    rw [← UInt8.toNat_inj, UInt8.toNat_ofNat', UInt8.toNat_ofNat', Nat.mod_mod]
  unfold stripe
  rw [hx, Nat.one_mul, Nat.one_mul, UInt8.ofNat_add, hsame y]
  exact hall ⟨y % 256, Nat.mod_lt _ (by decide)⟩

/-- A row of symbols that alternate. -/
theorem restless_map {f : ℕ → UInt8} (h : ∀ x, f x ≠ f (x + 1)) (width : ℕ) :
    Restless ((List.range width).map f) := by
  unfold Restless
  rw [isChain_map, isChain_range]
  exact fun x _ => h x

/-- The row of a striped plane. -/
def stripedRow (y : ℕ) : List UInt8 := (List.range width).map fun x => stripe x y

theorem restless_first {y : ℕ} (hy : 0 < y) (hy' : y < 256) (width : ℕ) : Restless (stripedRow width y) := by
  apply restless_map
  intro x heq
  unfold stripe at heq
  have hnat := congrArg UInt8.toNat heq
  simp only [UInt8.toNat_ofNat'] at hnat
  obtain hx | hx := Nat.mod_two_eq_zero_or_one x
  · have hnext : (x + 1) % 2 = 1 := by omega
    rw [hx, hnext] at hnat
    omega
  · have hnext : (x + 1) % 2 = 0 := by omega
    rw [hx, hnext] at hnat
    omega

theorem symbolsOf_striped (y : ℕ) : symbolsOf (some (stripedRow width (y + 1))) (stripedRow width y) =
    (List.range width).map fun x => deltaToWire (stripe x y) (stripe x (y + 1)) := by
  unfold symbolsOf stripedRow
  dsimp only
  rw [zipWith_map, zipWith_self]

theorem restless_next (y : ℕ) : Restless (symbolsOf (some (stripedRow width (y + 1))) (stripedRow width y)) := by
  rw [symbolsOf_striped]
  apply restless_map
  intro x
  obtain hx | hx := Nat.mod_two_eq_zero_or_one x
  · rw [deltaToWire_stripe_dark hx, deltaToWire_stripe_bright (by omega)]
    decide
  · rw [deltaToWire_stripe_bright hx, deltaToWire_stripe_dark (by omega)]
    decide

/-- The rows of a striped plane from `count` rows above the bottom of the stream on. -/
theorem restlessPlane_striped : ∀ (count : ℕ),
    RestlessPlane width (some (stripedRow width count)) ((List.range count).reverse.map (stripedRow width))
  | 0 => trivial
  | count + 1 => by
    rw [range_succ, reverse_append, reverse_singleton, singleton_append, map_cons]
    refine ⟨⟨restless_next width count, ?_⟩, restlessPlane_striped count⟩
    rw [symbolsOf_striped, length_map, length_range]

theorem restlessPlane_of_striped {height : ℕ} (hheight : 1 < height) (hheight' : height ≤ 256) :
    RestlessPlane width none ((List.range height).reverse.map (stripedRow width)) := by
  obtain ⟨last, rfl⟩ : ∃ last, height = last + 1 := ⟨height - 1, by omega⟩
  rw [range_succ, reverse_append]
  refine ⟨⟨restless_first (by omega) (by omega) width, ?_⟩, restlessPlane_striped width last⟩
  change (stripedRow width last).length = width
  rw [stripedRow, length_map, length_range]

/-- A picture whose blue, green and red are all stripes. -/
def Striped (image : ImageView) : Prop :=
  ∀ x y channel, x < image.width → y < image.height → channel < 3 → sample image x y channel = stripe x y

theorem plane_striped {image : ImageView} (h : Striped image) {channel : ℕ} (hchannel : channel < 3) :
    plane image ⟨image.width, image.height, .bottomUp⟩ channel =
      (List.range image.height).reverse.map (stripedRow image.width) := by
  have hreverse : (List.range image.height).reverse = (List.range image.height).map fun i => image.height - 1 - i := by
    refine ext_getElem (by simp) fun i hi hi' => ?_
    rw [getElem_reverse, getElem_map, getElem_range, getElem_range, length_range]
  rw [hreverse, map_map]
  refine map_congr_left fun scanline hscanline => ?_
  rw [mem_range] at hscanline
  refine map_congr_left fun x hx => ?_
  rw [mem_range] at hx
  have hscanline : scanline < image.height := hscanline
  exact h x (image.height - 1 - scanline) channel hx (by omega) hchannel

/-- **A striped picture is sent raw**: the longest stream there is for its size. -/
theorem encode_striped {image : ImageView} (hvalid : Valid image) (h : Striped image) (hheight : 1 < image.height)
    (hheight' : image.height ≤ 256) : ∃ bytes, encode image .automatic .bottomUp = some bytes ∧
      bytes.length = rawStreamSize ⟨image.width, image.height, .bottomUp⟩ := by
  obtain ⟨bytes, hencode, -, -⟩ := decode_encode hvalid .automatic .bottomUp
  refine ⟨bytes, hencode, ?_⟩
  rw [encode, asserts, if_pos hvalid] at hencode
  change encodeWith _ _ .automatic = some bytes at hencode
  unfold encodeWith at hencode
  obtain ⟨rle, hrle, hpick⟩ := Option.bind_eq_some_iff.mp hencode
  have hplanes : ∀ p ∈ splitPlanes image ⟨image.width, image.height, .bottomUp⟩,
      p.length = image.height ∧ RestlessPlane image.width none p := by
    intro p hp
    have hstriped : p = (List.range image.height).reverse.map (stripedRow image.width) := by
      simp only [splitPlanes, mem_cons, not_mem_nil, or_false] at hp
      obtain rfl | rfl | rfl := hp
      all_goals exact plane_striped h (by decide)
    rw [hstriped]
    refine ⟨by simp, restlessPlane_of_striped image.width hheight hheight'⟩
  have hlong : rawStreamSize ⟨image.width, image.height, .bottomUp⟩ < rle.length := by
    unfold encodeRle at hrle
    obtain ⟨planes, hbytes, hrle⟩ := Option.bind_eq_some_iff.mp hrle
    obtain rfl := Option.some.inj hrle
    have hgrown := encodeRlePlanes_length hvalid.1.1 hplanes hbytes
    have hthree : (splitPlanes image ⟨image.width, image.height, .bottomUp⟩).length = 3 := rfl
    rw [hthree, Nat.mul_add, Nat.mul_comm image.height image.width] at hgrown
    unfold rawStreamSize Geometry.pixels
    rw [length_cons]
    dsimp only
    omega
  rw [if_pos hlong] at hpick
  obtain rfl := Option.some.inj hpick
  exact encodeRaw_length image _

end Planar
end Codec
end Farland
