/-
# ClearCodec: colours, run lengths and pictures

What encoder and decoder of `codec/clear.hpp` share: the wire form of a colour
and of a run length, the picture an encoder reads (`Image`) and the rectangle
a decoder paints (`Target`). A colour is 0x00RRGGBB, three little-endian bytes
on the wire and in memory.

`Target.Shows x y c` says that a pixel has the bytes of `c` and A = 0xFF. A
`put` shows its colour and leaves every other pixel (`put_shows`), and a
sequence of colours painted in raster order shows each at its place
(`paintAll_shows`).
-/
import Farland.Base.Reader
import Farland.Lib.Ring

namespace Farland
namespace Codec
namespace Clear

open LittleEndian Reader List

/-! ### Constants -/

def flagGlyphIndex : ℕ := 0x01
def flagGlyphHit : ℕ := 0x02
def flagCacheReset : ℕ := 0x04

def subcodecUncompressed : ℕ := 0x00
def subcodecNscodec : ℕ := 0x01
def subcodecRlex : ℕ := 0x02

def vbarCacheSize : ℕ := 32768
def shortVbarCacheSize : ℕ := 16384
def glyphCacheSize : ℕ := 4000
def maxGlyphPixels : ℕ := 1024
def maxBandHeight : ℕ := 52
def maxPaletteSize : ℕ := 127
def maxDimension : ℕ := 8192

def bytesPerPixel : ℕ := 4

/-- `std::bit_width`. -/
def bitWidth (v : ℕ) : ℕ := if v = 0 then 0 else Nat.log2 v + 1

/-- Bits of stopIndex in an RLEX segment. -/
def rlexIndexBits (paletteCount : ℕ) : ℕ := if paletteCount ≤ 2 then 1 else bitWidth (paletteCount - 1)

/-! ### Colours and run lengths -/

/-- A pixel as 0x00RRGGBB. -/
abbrev Color := ℕ

/-- Blue, green, red. -/
def writeBgr (c : Color) : List UInt8 := leBytes 3 c

def readBgr : Parse Color := readLe 3

/-- runLengthFactor1, optionally followed by runLengthFactor2 and 3. Every
caller's run is below 2^32. -/
def writeRunLength (run : ℕ) : List UInt8 :=
  if run < 0xFF then Writer.u8 run
  else if run < 0xFFFF then Writer.u8 0xFF ++ Writer.u16le run
  else Writer.u8 0xFF ++ Writer.u16le 0xFFFF ++ Writer.u32le run

def readRunLength : Parse ℕ := do
  let factor1 ← u8
  if factor1 < 0xFF then pure factor1
  else
    let factor2 ← u16le
    if factor2 < 0xFFFF then pure factor2 else u32le

theorem readBgr_append (c : Color) (rest : List UInt8) (o : ℕ) (h : c < 2 ^ 24) :
    readBgr ⟨writeBgr c ++ rest, o⟩ = .ok (c, ⟨rest, o + 3⟩) :=
  readLe_append 3 c rest o h

theorem writeBgr_length (c : Color) : (writeBgr c).length = 3 := leBytes_length 3 c

theorem readRunLength_append (run : ℕ) (rest : List UInt8) (o : ℕ) (h : run < 2 ^ 32) :
    ∃ o', readRunLength ⟨writeRunLength run ++ rest, o⟩ = .ok (run, ⟨rest, o'⟩) := by
  unfold writeRunLength readRunLength
  by_cases h1 : run < 0xFF
  · rw [if_pos h1]
    refine ⟨o + 1, (Parse.bind_ok (u8_append run rest o (by omega))).trans ?_⟩
    rw [if_pos h1]
    rfl
  rw [if_neg h1]
  by_cases h2 : run < 0xFFFF
  · rw [if_pos h2]
    refine ⟨o + 1 + 2, (Parse.bind_ok (u8_append 0xFF _ o (by decide))).trans ?_⟩
    refine (Parse.bind_ok (u16le_append run rest (o + 1) (by omega))).trans ?_
    rw [if_pos h2]
    rfl
  · rw [if_neg h2, append_assoc, append_assoc]
    refine ⟨o + 1 + 2 + 4, (Parse.bind_ok (u8_append 0xFF _ o (by decide))).trans ?_⟩
    refine (Parse.bind_ok (u16le_append 0xFFFF _ (o + 1) (by decide))).trans ?_
    exact u32le_append run rest (o + 1 + 2) h

theorem writeRunLength_length (run : ℕ) : 1 ≤ (writeRunLength run).length ∧ (writeRunLength run).length ≤ 7 := by
  unfold writeRunLength
  split_ifs <;> simp

/-! ### The picture to encode -/

/-- Pixels in memory order B, G, R, X; rows of `stride` bytes. -/
structure ImageView where
  data : List UInt8
  width : ℕ
  height : ℕ
  stride : ℕ
  deriving DecidableEq

/-- What `Encoder::encode` asserts of its region. -/
def ImageView.Valid (v : ImageView) : Prop :=
  (1 ≤ v.width ∧ v.width ≤ maxDimension) ∧ (1 ≤ v.height ∧ v.height ≤ maxDimension) ∧
    v.width * bytesPerPixel ≤ v.stride ∧ v.width * bytesPerPixel ≤ v.data.length ∧
    v.height - 1 ≤ (v.data.length - v.width * bytesPerPixel) / v.stride

instance (v : ImageView) : Decidable v.Valid := inferInstanceAs (Decidable (_ ∧ _))

/-- The B, G, R of the pixel at `(x, y)`. -/
def ImageView.color (v : ImageView) (x y : ℕ) : Color :=
  leValue ((v.data.drop (y * v.stride + x * bytesPerPixel)).take 3)

/-- A region as 0x00RRGGBB pixels. -/
structure Image where
  pixels : List Color
  width : ℕ
  height : ℕ
  width_pos : 0 < width
  height_pos : 0 < height
  size : pixels.length = width * height
  isColor : ∀ c ∈ pixels, c < 2 ^ 24

namespace Image

variable (image : Image)

def at_ (x y : ℕ) : Color := image.pixels.getD (y * image.width + x) 0

def row (y : ℕ) : List Color := (image.pixels.drop (y * image.width)).take image.width

theorem getD_lt (i : ℕ) : image.pixels.getD i 0 < 2 ^ 24 := by
  rw [getD_eq_getElem?_getD]
  cases h : image.pixels[i]? with
  | none => exact Nat.two_pow_pos 24
  | some c => exact image.isColor c (mem_of_getElem? h)

theorem at_lt (x y : ℕ) : image.at_ x y < 2 ^ 24 := image.getD_lt _

theorem index_lt {x y : ℕ} (hx : x < image.width) (hy : y < image.height) :
    y * image.width + x < image.width * image.height := by
  calc y * image.width + x < y * image.width + image.width := by omega
    _ = (y + 1) * image.width := by ring
    _ ≤ image.height * image.width := Nat.mul_le_mul_right _ hy
    _ = image.width * image.height := Nat.mul_comm _ _

end Image

theorem ImageView.color_lt (v : ImageView) (x y : ℕ) : v.color x y < 2 ^ 24 := by
  have h := leValue_lt ((v.data.drop (y * v.stride + x * bytesPerPixel)).take 3)
  have hl : ((v.data.drop (y * v.stride + x * bytesPerPixel)).take 3).length ≤ 3 := length_take_le _ _
  exact lt_of_lt_of_le h (Nat.pow_le_pow_right (by decide) hl)

/-- The pixels of a region, row by row. -/
def load (region : ImageView) (h : region.Valid) : Image where
  pixels := (List.range (region.width * region.height)).map fun i =>
    region.color (i % region.width) (i / region.width)
  width := region.width
  height := region.height
  width_pos := h.1.1
  height_pos := h.2.1.1
  size := by rw [length_map, length_range]
  isColor := by
    intro c hc
    obtain ⟨i, -, rfl⟩ := mem_map.mp hc
    exact region.color_lt _ _

theorem load_at (region : ImageView) (h : region.Valid) {x y : ℕ} (hx : x < region.width) (hy : y < region.height) :
    (load region h).at_ x y = region.color x y := by
  have hi : y * region.width + x < region.width * region.height := (load region h).index_lt hx hy
  unfold Image.at_
  change ((List.map _ (List.range _))[y * region.width + x]?).getD 0 = _
  rw [getElem?_map, getElem?_range hi, Option.map_some, Option.getD_some, add_comm,
    Nat.add_mul_mod_self_right, Nat.mod_eq_of_lt hx, Nat.add_mul_div_right _ _ h.1.1, Nat.div_eq_of_lt hx, zero_add]

/-! ### The rectangle to paint -/

/-- The destination rectangle; the bytes it is in are the decoder's output. -/
structure Target where
  stride : ℕ
  width : ℕ
  height : ℕ
  deriving DecidableEq

namespace Target

variable (t : Target)

def pixels : ℕ := t.width * t.height

/-- Where the pixel at `(x, y)` starts. -/
def offset (x y : ℕ) : ℕ := y * t.stride + x * bytesPerPixel

def put (out : List UInt8) (x y : ℕ) (c : Color) : List UInt8 :=
  Ring.overwrite out (t.offset x y) (leBytes 3 c ++ [0xFF])

def get (out : List UInt8) (x y : ℕ) : Color := leValue ((out.drop (t.offset x y)).take 3)

/-- What `Decoder::decode` asserts of its output. -/
def Valid (out : List UInt8) : Prop :=
  t.width * bytesPerPixel ≤ t.stride ∧ (t.height - 1) * t.stride + t.width * bytesPerPixel ≤ out.length

instance (t : Target) (out : List UInt8) : Decidable (t.Valid out) := inferInstanceAs (Decidable (_ ∧ _))

/-- The pixel at `(x, y)` has the colour `c` and A = 0xFF. -/
def Shows (out : List UInt8) (x y : ℕ) (c : Color) : Prop :=
  (out.drop (t.offset x y)).take 4 = leBytes 3 c ++ [0xFF]

variable {t : Target} {out : List UInt8}

theorem offset_lt (h : t.Valid out) {x y : ℕ} (hx : x < t.width) (hy : y < t.height) :
    t.offset x y + 4 ≤ out.length := by
  obtain ⟨-, hs⟩ := h
  have hm : y * t.stride ≤ (t.height - 1) * t.stride := Nat.mul_le_mul_right _ (by omega)
  unfold offset bytesPerPixel at *
  omega

/-- Two pixels do not share a byte. -/
theorem offset_disjoint (h : t.Valid out) {x y x' y' : ℕ} (hx : x < t.width) (hx' : x' < t.width)
    (hne : ¬ (x' = x ∧ y' = y)) : t.offset x' y' + 4 ≤ t.offset x y ∨ t.offset x y + 4 ≤ t.offset x' y' := by
  obtain ⟨hs, -⟩ := h
  unfold offset bytesPerPixel at *
  rcases Nat.lt_trichotomy y' y with hy | rfl | hy
  · have : (y' + 1) * t.stride ≤ y * t.stride := Nat.mul_le_mul_right _ hy
    rw [Nat.add_mul] at this
    omega
  · omega
  · have : (y + 1) * t.stride ≤ y' * t.stride := Nat.mul_le_mul_right _ hy
    rw [Nat.add_mul] at this
    omega

theorem put_length (h : t.Valid out) {x y : ℕ} (hx : x < t.width) (hy : y < t.height) (c : Color) :
    (t.put out x y c).length = out.length :=
  Ring.overwrite_length (by simpa using offset_lt h hx hy)

theorem put_valid (h : t.Valid out) {x y : ℕ} (hx : x < t.width) (hy : y < t.height) (c : Color) :
    t.Valid (t.put out x y c) :=
  ⟨h.1, by rw [put_length h hx hy]; exact h.2⟩

theorem put_shows (h : t.Valid out) {x y : ℕ} (hx : x < t.width) (hy : y < t.height) (c : Color) :
    t.Shows (t.put out x y c) x y c := by
  have ho := offset_lt h hx hy
  have hl : (out.take (t.offset x y)).length = t.offset x y := by simp; omega
  unfold Shows put
  rw [Ring.overwrite, append_assoc, drop_left' hl]
  exact take_left' (by simp)

/-- Every other pixel stays. -/
theorem put_shows_other (h : t.Valid out) {x y x' y' : ℕ} (hx : x < t.width) (hy : y < t.height)
    (hx' : x' < t.width) (hne : ¬ (x' = x ∧ y' = y)) (c : Color) {c' : Color}
    (hs : t.Shows out x' y' c') : t.Shows (t.put out x y c) x' y' c' := by
  have ho := offset_lt h hx hy
  have hd := offset_disjoint h hx hx' hne
  unfold Shows put at *
  rw [← hs]
  refine ext_getElem? fun i => ?_
  rw [getElem?_take, getElem?_take]
  split_ifs with hi
  · rw [getElem?_drop, getElem?_drop, Ring.getElem?_overwrite (by simpa using ho), if_neg]
    simp only [length_append, leBytes_length, length_singleton]
    omega
  · rfl

theorem get_of_shows {x y : ℕ} {c : Color} (hc : c < 2 ^ 24) (h : t.Shows out x y c) : t.get out x y = c := by
  unfold get
  have h3 : (out.drop (t.offset x y)).take 3 = leBytes 3 c := by
    have := congrArg (List.take 3) h
    rwa [take_take] at this
  rw [h3, leValue_leBytes]
  exact Nat.mod_eq_of_lt hc

end Target

/-! ### Raster order -/

/-- Paints a sequence of pixels in raster order over a sub-rectangle. -/
structure RasterCursor where
  x0 : ℕ
  y0 : ℕ
  width : ℕ
  x : ℕ := 0
  y : ℕ := 0
  deriving DecidableEq

namespace RasterCursor

def advance (cursor : RasterCursor) : RasterCursor :=
  if cursor.x + 1 = cursor.width then { cursor with x := 0, y := cursor.y + 1 }
  else { cursor with x := cursor.x + 1 }

variable (t : Target) (p : RasterCursor × List UInt8)

/-- Paints one pixel and moves on. -/
def paint (c : Color) : RasterCursor × List UInt8 :=
  (p.1.advance, t.put p.2 (p.1.x0 + p.1.x) (p.1.y0 + p.1.y) c)

def fill (p : RasterCursor × List UInt8) (c : Color) : ℕ → RasterCursor × List UInt8
  | 0 => p
  | count + 1 => fill (paint t p c) c count

/-- Paints the colours one after the other. -/
def paintAll (cs : List Color) : RasterCursor × List UInt8 :=
  cs.foldl (paint t) p

theorem fill_eq (c : Color) : ∀ (count : ℕ) (p : RasterCursor × List UInt8),
    fill t p c count = paintAll t p (List.replicate count c)
  | 0, _ => rfl
  | count + 1, p => fill_eq c count (paint t p c)

theorem paintAll_append (a b : List Color) :
    paintAll t p (a ++ b) = paintAll t (paintAll t p a) b := foldl_append

/-- A cursor over the rectangle from `(x0, y0)` stands at the `i`-th pixel. -/
structure At (cursor : RasterCursor) (x0 y0 width i : ℕ) : Prop where
  left : cursor.x0 = x0
  top : cursor.y0 = y0
  row : cursor.width = width
  x : cursor.x = i % width
  y : cursor.y = i / width

theorem At.start (x0 y0 width : ℕ) : At { x0 := x0, y0 := y0, width := width } x0 y0 width 0 :=
  ⟨rfl, rfl, rfl, (Nat.zero_mod _).symm, (Nat.zero_div _).symm⟩

theorem At.advance {cursor : RasterCursor} {x0 y0 width i : ℕ} (h : At cursor x0 y0 width i) (hw : 0 < width) :
    At cursor.advance x0 y0 width (i + 1) := by
  have hmod := Nat.mod_add_div i width
  have hlt := Nat.mod_lt i hw
  unfold RasterCursor.advance
  rw [h.x, h.row]
  by_cases he : i % width + 1 = width
  · rw [if_pos he]
    have hi : i + 1 = width * (i / width + 1) := by
      rw [Nat.mul_add]
      omega
    refine ⟨h.left, h.top, rfl, ?_, ?_⟩
    · rw [hi, Nat.mul_mod_right]
    · rw [hi, Nat.mul_div_cancel_left _ hw]
      exact congrArg (· + 1) h.y
  · rw [if_neg he]
    have hlt' : i % width + 1 < width := by omega
    have hi : i + 1 = i % width + 1 + width * (i / width) := by omega
    refine ⟨h.left, h.top, rfl, ?_, ?_⟩
    · rw [hi, Nat.add_mul_mod_self_left, Nat.mod_eq_of_lt hlt']
    · rw [hi, Nat.add_mul_div_left _ _ hw, Nat.div_eq_of_lt hlt', Nat.zero_add]
      exact h.y

/-- **A sequence painted in raster order shows each colour at its place** and
leaves the pixels it does not reach. -/
theorem paintAll_shows {t : Target} {x0 y0 width height : ℕ} (hw : 0 < width) (hx : x0 + width ≤ t.width)
    (hy : y0 + height ≤ t.height) : ∀ (cs : List Color) (p : RasterCursor × List UInt8) (i : ℕ),
    t.Valid p.2 → At p.1 x0 y0 width i → i + cs.length ≤ width * height →
    t.Valid (paintAll t p cs).2 ∧ At (paintAll t p cs).1 x0 y0 width (i + cs.length) ∧
      (∀ k c, cs[k]? = some c →
        t.Shows (paintAll t p cs).2 (x0 + (i + k) % width) (y0 + (i + k) / width) c) ∧
      (∀ x y c, x < t.width →
        (∀ k < cs.length, ¬ (x = x0 + (i + k) % width ∧ y = y0 + (i + k) / width)) →
        t.Shows p.2 x y c → t.Shows (paintAll t p cs).2 x y c)
  | [], p, i, hv, hat, _ => by
    refine ⟨hv, hat, fun k c h => ?_, fun _ _ _ _ _ h => h⟩
    rw [getElem?_nil] at h
    cases h
  | c :: cs, p, i, hv, hat, hlen => by
    rw [length_cons] at hlen
    have hpx : x0 + i % width < t.width := by
      have := Nat.mod_lt i hw
      omega
    have hpy : y0 + i / width < t.height := by
      have : i / width < height := Nat.div_lt_of_lt_mul (by omega)
      omega
    have hp : paint t p c = (p.1.advance, t.put p.2 (x0 + i % width) (y0 + i / width) c) := by
      unfold paint
      rw [hat.left, hat.top, hat.x, hat.y]
    have hv' : t.Valid (paint t p c).2 := by
      rw [hp]
      exact Target.put_valid hv hpx hpy c
    have hat' : At (paint t p c).1 x0 y0 width (i + 1) := hat.advance hw
    obtain ⟨h₁, h₂, h₃, h₄⟩ := paintAll_shows hw hx hy cs (paint t p c) (i + 1) hv' hat' (by omega)
    change t.Valid (paintAll t (paint t p c) cs).2 ∧ _
    refine ⟨h₁, ?_, ?_, ?_⟩
    · rw [length_cons, add_comm cs.length 1, ← add_assoc]
      exact h₂
    · intro k d hk
      cases k with
      | zero =>
        cases hk
        refine h₄ _ _ _ hpx (fun k hk hc => ?_) ?_
        · -- later pixels are elsewhere
          have h := Nat.mod_add_div (i + 1 + k) width
          have h' := Nat.mod_add_div i width
          rw [add_zero] at hc
          rw [← add_left_cancel hc.2] at h
          omega
        · rw [hp]
          exact Target.put_shows hv hpx hpy c
      | succ k =>
        have := h₃ k d hk
        rwa [show i + (k + 1) = i + 1 + k by omega]
    · intro x y d hx' hne hs
      refine h₄ x y d hx' (fun k hk => ?_) ?_
      · have := hne (k + 1) (by rw [length_cons]; omega)
        rwa [show i + (k + 1) = i + 1 + k by omega] at this
      · rw [hp]
        exact Target.put_shows_other hv hpx hpy hx' (hne 0 (by simp)) c hs

end RasterCursor

end Clear
end Codec
end Farland
