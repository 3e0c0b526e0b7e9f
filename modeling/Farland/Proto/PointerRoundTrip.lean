/-
# Round trips of pointers

The other half of `proto/pointer.cpp`: the decoders of both paths, the
slow-path encoder, and the rendering of a shape. A shape built from an image
is drawn as that image with its clear pixels emptied; at 24 bits what is drawn
is opaque. Rows are padded on their own in each mask and stand bottom-up, and
the AND bit of a black or white pixel has a meaning of its own.

Key theorems: **`shapeToBgra_fromBgra`**, `decodeFastpath_reads`,
`decodeSlowPath_reads`.
-/
import Farland.Base.ReadBack
import Farland.Proto.Pointer
import Mathlib.Data.List.GetD

namespace Farland
namespace Proto
namespace Pointer

open Reader Parse List

/-! ### Rendering -/

def opaqueBlack : Bgra := ⟨0, 0, 0, 0xFF⟩
def opaqueWhite : Bgra := ⟨0xFF, 0xFF, 0xFF, 0xFF⟩
def transparent : Bgra := ⟨0, 0, 0, 0⟩

def Bgra.bytes (p : Bgra) : List UInt8 := [p.b, p.g, p.r, p.a]

/-- FreeRDP's stand-in for screen-inverting pixels. -/
def inverted (x y : ℕ) : Bgra := if (x + y) % 2 = 1 then opaqueBlack else opaqueWhite

def expand5 (v : ℕ) : UInt8 := UInt8.ofNat (v <<< 3 ||| v >>> 2)

def component : Parse UInt8 := do
  let v ← u8
  pure (UInt8.ofNat v)

variable (xorBpp : ℕ)

/-- One XOR pixel of a 15, 16, 24 or 32 bpp mask. -/
def readXorPixel : Parse Bgra :=
  if xorBpp = 32 then do
    let b ← component
    let g ← component
    let r ← component
    let a ← component
    pure ⟨b, g, r, a⟩
  else if xorBpp = 24 then do
    let b ← component
    let g ← component
    let r ← component
    pure ⟨b, g, r, 0xFF⟩
  else do
    let v ← u16le
    pure ⟨expand5 (v &&& 0x1F), expand5 ((v >>> 5) &&& 0x1F), expand5 ((v >>> 10) &&& 0x1F), 0xFF⟩

/-- One bit per pixel, most significant bit first, over one scan line. -/
structure BitReader where
  row : Reader
  byte : ℕ := 0
  mask : ℕ := 0

def BitReader.next (bits : BitReader) : Result (Bool × BitReader) :=
  if bits.mask = 0 then do
    let (byte, row) ← u8 bits.row
    .ok (decide (byte &&& 0x80 ≠ 0), { row, byte, mask := 0x80 >>> 1 })
  else .ok (decide (bits.byte &&& bits.mask ≠ 0), { bits with mask := bits.mask >>> 1 })

/-- What is drawn where the XOR mask has `p`. -/
def masked (x y : ℕ) (andBit : Bool) (p : Bgra) : Bgra :=
  if andBit = false then p
  else if p = opaqueWhite then inverted x y
  else if xorBpp = 24 ∨ p = opaqueBlack then transparent
  else p

/-- AND 0 draws the XOR color, AND 1 keeps or inverts the screen. -/
def monochrome (x y : ℕ) (andBit xorBit : Bool) : Bgra :=
  if andBit = false then (if xorBit then opaqueWhite else opaqueBlack)
  else if xorBit then inverted x y else transparent

/-- The `n` pixels of a line from column `x` on. -/
def drawLine (y : ℕ) : ℕ → ℕ → Reader → BitReader → BitReader → Result (List Bgra)
  | 0, _, _, _, _ => .ok []
  | n + 1, x, xorRow, andBits, xorBits => do
    let (andBit, andBits) ← andBits.next
    if xorBpp = 1 then
      let (xorBit, xorBits) ← xorBits.next
      let line ← drawLine y n (x + 1) xorRow andBits xorBits
      .ok (monochrome x y andBit xorBit :: line)
    else
      let (p, xorRow) ← readXorPixel xorBpp xorRow
      let line ← drawLine y n (x + 1) xorRow andBits xorBits
      .ok (masked xorBpp x y andBit p :: line)

/-- The `n` lines from `line` on, in the order of the masks. -/
def drawLines (s : Shape) : ℕ → ℕ → Reader → Reader → Result (List (List Bgra))
  | 0, _, _, _ => .ok []
  | n + 1, line, xorRows, andRows => do
    let y := if s.xorBpp = 1 then line else s.height - 1 - line
    let (xorRow, xorRows) ← sub (xorStride s.width s.xorBpp) xorRows
    let (andRow, andRows) ← sub (andStride s.width) andRows
    let pixels ← drawLine s.xorBpp y s.width 0 xorRow { row := andRow } { row := xorRow }
    let lines ← drawLines s n (line + 1) xorRows andRows
    .ok (pixels :: lines)

/-- The picture, top-down: every line goes to its `y`. -/
def shapeToBgra (s : Shape) : Result (List UInt8) := do
  validate s maxLargeSize
  if s.xorBpp = 4 ∨ s.xorBpp = 8 then fail .unsupported "palette pointers are not supported"
  else
    let lines ← drawLines s s.height 0 { rest := s.xorMask } { rest := s.andMask }
    let topDown := if s.xorBpp = 1 then lines else lines.reverse
    .ok (topDown.flatMap fun line => line.flatMap Bgra.bytes)

/-! ### Bits -/

/-- The bit of column `x`. -/
def bitAt (row : List UInt8) (x : ℕ) : Bool := decide ((row.getD (x / 8) 0).toNat &&& 0x80 >>> (x % 8) ≠ 0)

/-- A reader in front of the bit of column `x`. -/
def BitReader.At (bits : BitReader) (row : List UInt8) (x : ℕ) : Prop :=
  if x % 8 = 0 then bits.mask = 0 ∧ bits.row.rest = row.drop (x / 8)
  else bits.mask = 0x80 >>> (x % 8) ∧ bits.byte = (row.getD (x / 8) 0).toNat ∧ bits.row.rest = row.drop (x / 8 + 1)

theorem BitReader.next_at {bits : BitReader} {row : List UInt8} {x : ℕ} (h : bits.At row x)
    (hx : x / 8 < row.length) : ∃ bits', bits.next = .ok (bitAt row x, bits') ∧ bits'.At row (x + 1) := by
  have hmask : ∀ k < 8, k ≠ 0 → 0x80 >>> k ≠ 0 := by decide
  have hshift : 0x80 >>> (x % 8) >>> 1 = 0x80 >>> (x % 8 + 1) := (Nat.shiftRight_add 0x80 (x % 8) 1).symm
  unfold At at h
  unfold next bitAt
  by_cases hstart : x % 8 = 0
  · rw [if_pos hstart] at h
    obtain ⟨hzero, hrest⟩ := h
    have hrow : bits.row.rest = row.getD (x / 8) 0 :: row.drop (x / 8 + 1) := by
      rw [hrest, drop_eq_getElem_cons hx, getD_eq_getElem _ _ hx]
    have hu8 : u8 bits.row = .ok ((row.getD (x / 8) 0).toNat, ⟨row.drop (x / 8 + 1), bits.row.offset + 1⟩) := by
      have hread := u8_readsBack (row.getD (x / 8) 0).toNat_lt (row.drop (x / 8 + 1)) bits.row.offset
      rw [Writer.u8, LittleEndian.leBytes, LittleEndian.leBytes, UInt8.ofNat_toNat, singleton_append, ← hrow] at hread
      exact hread
    rw [if_pos hzero, hu8, hstart]
    refine ⟨_, rfl, ?_⟩
    have hnext : (x + 1) % 8 = 1 ∧ (x + 1) / 8 = x / 8 := by omega
    rw [At, hnext.1, hnext.2]
    exact ⟨rfl, rfl, rfl⟩
  · rw [if_neg hstart] at h
    obtain ⟨hm, hbyte, hrest⟩ := h
    rw [hm, hbyte, if_neg (hmask _ (Nat.mod_lt _ (by decide)) hstart)]
    refine ⟨_, rfl, ?_⟩
    unfold At
    by_cases hlast : (x + 1) % 8 = 0
    · have hseven : x % 8 = 7 ∧ (x + 1) / 8 = x / 8 + 1 := by omega
      rw [if_pos hlast, hseven.2]
      refine ⟨?_, hrest⟩
      dsimp only
      rw [hseven.1]
      decide
    · have hmore : (x + 1) % 8 = x % 8 + 1 ∧ (x + 1) / 8 = x / 8 := by omega
      rw [hmore.1, hmore.2]
      exact ⟨hshift, rfl, hrest⟩

/-- The byte whose bits are `c`, the first of them the highest. -/
def maskByte (c : ℕ → Bool) : UInt8 :=
  ((List.range 8).map fun bit => if c bit then (0x80 : UInt8) >>> UInt8.ofNat bit else 0).foldl (· ||| ·) 0

theorem maskByte_bit (c : ℕ → Bool) {k : ℕ} (hk : k < 8) : decide ((maskByte c).toNat &&& 0x80 >>> k ≠ 0) = c k := by
  have htable : ∀ c0 c1 c2 c3 c4 c5 c6 c7 : Bool, ∀ k < 8,
      decide ((maskByte fun i => [c0, c1, c2, c3, c4, c5, c6, c7].getD i false).toNat &&& 0x80 >>> k ≠ 0) =
        [c0, c1, c2, c3, c4, c5, c6, c7].getD k false := by decide +kernel
  have hbit := htable (c 0) (c 1) (c 2) (c 3) (c 4) (c 5) (c 6) (c 7) k hk
  have hlist : ∀ i < 8, [c 0, c 1, c 2, c 3, c 4, c 5, c 6, c 7].getD i false = c i := by
    intro i hi
    interval_cases i <;> rfl
  rwa [hlist k hk] at hbit

/-- The AND bit of a pixel says that it is clear. -/
theorem bitAt_andLine {pixels : List Bgra} {xorBpp x : ℕ} (hx : x < pixels.length) :
    bitAt (andLine pixels xorBpp) x = (pixels.get ⟨x, hx⟩).isClear xorBpp ∧ x / 8 < (andLine pixels xorBpp).length := by
  have hlt : x / 8 < andStride pixels.length := by
    unfold andStride xorStride
    omega
  have hbyte : (andLine pixels xorBpp).getD (x / 8) 0 =
      maskByte fun bit => (pixels[x / 8 * 8 + bit]?).elim false (·.isClear xorBpp) := by
    simp only [andLine, getD_eq_getElem?_getD, getElem?_map, getElem?_range hlt]
    rfl
  have hcolumn : x / 8 * 8 + x % 8 = x := by omega
  rw [andLine_length, bitAt, hbyte, maskByte_bit _ (Nat.mod_lt x (by decide)), hcolumn, getElem?_eq_getElem hx]
  exact ⟨rfl, hlt⟩

/-! ### Pixels -/

/-- What comes back of a pixel: a clear one is empty, and at 24 bits any other is opaque. -/
def Bgra.shown (p : Bgra) : Bgra :=
  if p.isClear xorBpp then transparent else if xorBpp = 32 then p else { p with a := 0xFF }

theorem component_readsBack (v : UInt8) : component.ReadsBack [v] v := by
  have hread := u8_readsBack v.toNat_lt
  rw [Writer.u8, LittleEndian.leBytes, UInt8.ofNat_toNat] at hread
  refine hread.map ?_
  rw [UInt8.ofNat_toNat]
  exact ReadsBack.pure v

/-- The XOR pixel and the AND bit of a pixel together. -/
theorem readXorPixel_shown {xorBpp : ℕ} (hbpp : xorBpp = 24 ∨ xorBpp = 32) (p : Bgra) (x y : ℕ) :
    ∃ q, (readXorPixel xorBpp).ReadsBack (p.xorBytes xorBpp) q ∧
      masked xorBpp x y (p.isClear xorBpp) q = p.shown xorBpp := by
  have hthree : ∀ b g r : UInt8, (readXorPixel 24).ReadsBack [b, g, r] ⟨b, g, r, 0xFF⟩ := fun b g r =>
    (component_readsBack b).bind ((component_readsBack g).bind ((component_readsBack r).map (ReadsBack.pure _)))
  have hfour : ∀ b g r a : UInt8, (readXorPixel 32).ReadsBack [b, g, r, a] ⟨b, g, r, a⟩ := fun b g r a =>
    (component_readsBack b).bind ((component_readsBack g).bind ((component_readsBack r).bind
      ((component_readsBack a).map (ReadsBack.pure _))))
  unfold Bgra.xorBytes Bgra.shown
  rcases hbpp with rfl | rfl
  · cases hclear : p.isClear 24 with
    | true => exact ⟨⟨0, 0, 0, 0xFF⟩, hthree 0 0 0, rfl⟩
    | false => exact ⟨⟨p.b, p.g, p.r, 0xFF⟩, hthree p.b p.g p.r, rfl⟩
  · cases hclear : p.isClear 32 with
    | true => exact ⟨⟨0, 0, 0, 0⟩, hfour 0 0 0 0, rfl⟩
    | false => exact ⟨p, hfour p.b p.g p.r p.a, rfl⟩

/-- **A line is drawn as its pixels are shown.** -/
theorem drawLine_shown {xorBpp : ℕ} (hbpp : xorBpp = 24 ∨ xorBpp = 32) (y : ℕ) (row pad : List UInt8)
    (xorBits : BitReader) : ∀ {pixels : List Bgra} {x o : ℕ} {andBits : BitReader}, andBits.At row x →
      (∀ i (hi : i < pixels.length), bitAt row (x + i) = (pixels.get ⟨i, hi⟩).isClear xorBpp ∧ (x + i) / 8 < row.length) →
      drawLine xorBpp y pixels.length x ⟨pixels.flatMap (·.xorBytes xorBpp) ++ pad, o⟩ andBits xorBits =
        .ok (pixels.map (·.shown xorBpp))
  | [], _, _, _, _, _ => rfl
  | p :: pixels, x, o, andBits, hat, hbits => by
    obtain ⟨hbit, hin⟩ := hbits 0 (Nat.succ_pos _)
    rw [Nat.add_zero] at hbit hin
    obtain ⟨andBits', hnext, hat'⟩ := BitReader.next_at hat hin
    obtain ⟨q, hread, hshown⟩ := readXorPixel_shown hbpp p x y
    have hmore : ∀ i (hi : i < pixels.length),
        bitAt row (x + 1 + i) = (pixels.get ⟨i, hi⟩).isClear xorBpp ∧ (x + 1 + i) / 8 < row.length := by
      intro i hi
      have hi' := hbits (i + 1) (Nat.succ_lt_succ hi)
      rwa [show x + (i + 1) = x + 1 + i by omega] at hi'
    have hne : xorBpp ≠ 1 := by omega
    rw [length_cons, drawLine, hnext]
    change (if xorBpp = 1 then _ else _) = _
    rw [if_neg hne, flatMap_cons, append_assoc, hread, hbit]
    change ((drawLine xorBpp y pixels.length (x + 1) ⟨pixels.flatMap (·.xorBytes xorBpp) ++ pad, _⟩ andBits' xorBits)
      >>= fun line => _) = _
    rw [drawLine_shown hbpp y row pad xorBits hat' hmore]
    change Except.ok (masked xorBpp x y (p.isClear xorBpp) q :: pixels.map (·.shown xorBpp)) = _
    rw [hshown]
    rfl

/-! ### Pictures -/

theorem drawLines_shown {s : Shape} (hbpp : s.xorBpp = 24 ∨ s.xorBpp = 32) : ∀ {rows : List (List Bgra)} {line xo ao : ℕ},
    (∀ row ∈ rows, row.length = s.width) →
    drawLines s rows.length line ⟨rows.flatMap (xorLine · s.xorBpp), xo⟩ ⟨rows.flatMap (andLine · s.xorBpp), ao⟩ =
      .ok (rows.map fun row => row.map (·.shown s.xorBpp))
  | [], _, _, _, _ => rfl
  | row :: rows, line, xo, ao, h => by
    obtain ⟨hrow, hrows⟩ := forall_mem_cons.mp h
    have hxor : (xorLine row s.xorBpp).length = xorStride s.width s.xorBpp := by rw [xorLine_length row hbpp, hrow]
    have hand : (andLine row s.xorBpp).length = andStride s.width := by rw [andLine_length, hrow]
    have hat : BitReader.At { row := ⟨andLine row s.xorBpp, ao⟩ } (andLine row s.xorBpp) 0 := ⟨rfl, rfl⟩
    have hline : ∀ y, drawLine s.xorBpp y row.length 0 ⟨xorLine row s.xorBpp, xo⟩
        { row := ⟨andLine row s.xorBpp, ao⟩ } { row := ⟨xorLine row s.xorBpp, xo⟩ } =
          .ok (row.map (·.shown s.xorBpp)) := by
      intro y
      refine drawLine_shown hbpp y _ _ _ hat fun i hi => ?_
      rw [Nat.zero_add]
      exact bitAt_andLine hi
    rw [hrow] at hline
    rw [flatMap_cons, flatMap_cons, length_cons, drawLines, Reader.sub_append _ _ _ hxor]
    change (sub (andStride s.width) _ >>= fun p => _) = _
    rw [Reader.sub_append _ _ _ hand]
    change (drawLine s.xorBpp _ s.width 0 ⟨xorLine row s.xorBpp, xo⟩ { row := ⟨andLine row s.xorBpp, ao⟩ }
      { row := ⟨xorLine row s.xorBpp, xo⟩ } >>= fun pixels => _) = _
    rw [hline]
    change (drawLines s rows.length (line + 1) ⟨rows.flatMap (xorLine · s.xorBpp), xo + xorStride s.width s.xorBpp⟩
      ⟨rows.flatMap (andLine · s.xorBpp), ao + andStride s.width⟩ >>= fun lines => _) = _
    rw [drawLines_shown hbpp hrows]
    rfl

variable (f : Bgra → Bgra)

/-- Every pixel of an image, four bytes each. -/
def mapPixels : List UInt8 → List UInt8
  | b :: g :: r :: a :: rest => (f ⟨b, g, r, a⟩).bytes ++ mapPixels rest
  | _ => []

theorem mapPixels_range : ∀ {n : ℕ} {l : List UInt8}, l.length = n * 4 →
    mapPixels f l = (List.range n).flatMap fun i => (f (pixelAt l 0 i 0)).bytes
  | 0, l, h => by
    rw [Nat.zero_mul, length_eq_zero_iff] at h
    rw [h]
    rfl
  | n + 1, b :: g :: r :: a :: rest, h => by
    have hrest : rest.length = n * 4 := by
      simp only [length_cons] at h
      omega
    have hnext : ∀ i, pixelAt (b :: g :: r :: a :: rest) 0 (i + 1) 0 = pixelAt rest 0 i 0 := by
      intro i
      have hindex : (0 * 0 + (i + 1)) * 4 = (0 * 0 + i) * 4 + 4 := by omega
      unfold pixelAt
      rw [hindex]
      rfl
    rw [mapPixels, mapPixels_range hrest, range_succ_eq_map, flatMap_cons, flatMap_map]
    simp only [hnext]
    rfl
  | n + 1, [], h | n + 1, [_], h | n + 1, [_, _], h | n + 1, [_, _, _], h => by
    simp only [length_cons, length_nil] at h
    omega

theorem range_flatMap_rows {α : Type} (g : ℕ → List α) (width : ℕ) : ∀ height : ℕ,
    (List.range (width * height)).flatMap g =
      (List.range height).flatMap fun y => (List.range width).flatMap fun x => g (y * width + x)
  | 0 => by simp
  | height + 1 => by
    rw [Nat.mul_succ, range_add, flatMap_append, range_flatMap_rows g width height, range_succ,
      flatMap_append, flatMap_map, flatMap_singleton, Nat.mul_comm]

theorem mapPixels_rows {bgra : List UInt8} {width height : ℕ} (h : bgra.length = width * height * 4) :
    mapPixels f bgra = (List.range height).flatMap fun y => ((pixelRow bgra width y).map f).flatMap Bgra.bytes := by
  rw [mapPixels_range f h, range_flatMap_rows]
  refine flatMap_congr fun y _ => ?_
  rw [pixelRow, map_map, flatMap_map]
  refine flatMap_congr fun x _ => ?_
  simp [pixelAt]

/-- **A shape drawn from an image is the image**, its clear pixels emptied. -/
theorem shapeToBgra_fromBgra {bgra : List UInt8} {width height xorBpp : ℕ} (hbpp : xorBpp = 24 ∨ xorBpp = 32)
    (hwidth : 0 < width ∧ width ≤ maxLargeSize) (hheight : 0 < height ∧ height ≤ maxLargeSize)
    (hlen : bgra.length = width * height * 4) :
    ∃ s, shapeFromBgra bgra width height xorBpp = some s ∧
      (∀ maxDimension, width ≤ maxDimension → height ≤ maxDimension → validate s maxDimension = .ok ()) ∧
      shapeToBgra s = .ok (mapPixels (Bgra.shown xorBpp) bgra) := by
  obtain ⟨s, hs, rfl, rfl, rfl, hxor, hand⟩ := shapeFromBgra_some hbpp ⟨hwidth.1, hheight.1, hlen⟩
  have hvalid : ∀ maxDimension, s.width ≤ maxDimension → s.height ≤ maxDimension → validate s maxDimension = .ok () :=
    fun _ hw hh => validate_ok ⟨hwidth.1, hw⟩ ⟨hheight.1, hh⟩ (by rcases hbpp with h | h <;> rw [h] <;> decide) hxor hand
  refine ⟨s, hs, hvalid, ?_⟩
  obtain ⟨lines, hlines⟩ : ∃ lines, lines = (List.range s.height).map fun line => pixelRow bgra s.width (s.height - 1 - line) :=
    ⟨_, rfl⟩
  have hmasks : s.xorMask = lines.flatMap (xorLine · s.xorBpp) ∧ s.andMask = lines.flatMap (andLine · s.xorBpp) := by
    rw [shapeFromBgra, asserts, asserts, if_pos hbpp, if_pos ⟨hwidth.1, hheight.1, hlen⟩] at hs
    rw [hlines, flatMap_map, flatMap_map]
    exact ⟨congrArg Shape.xorMask (Option.some.inj hs).symm, congrArg Shape.andMask (Option.some.inj hs).symm⟩
  have hrows : ∀ row ∈ lines, row.length = s.width := by
    rw [hlines]
    intro row hrow
    obtain ⟨line, -, rfl⟩ := mem_map.mp hrow
    simp [pixelRow]
  have hcount : lines.length = s.height := by rw [hlines, length_map, length_range]
  have hdrawn : drawLines s s.height 0 { rest := s.xorMask } { rest := s.andMask } =
      .ok (lines.map fun row => row.map (·.shown s.xorBpp)) := by
    rw [hmasks.1, hmasks.2, ← hcount]
    exact drawLines_shown hbpp hrows
  have hreverse : lines.reverse = (List.range s.height).map (pixelRow bgra s.width) := by
    have hdown : (List.range s.height).reverse = (List.range s.height).map (0 + s.height - 1 - ·) := by
      rw [range_eq_range', reverse_range', ← range_eq_range']
    rw [hlines, ← map_reverse, hdown, map_map]
    refine map_congr_left fun y hy => ?_
    have hlt := mem_range.mp hy
    change pixelRow bgra s.width (s.height - 1 - (0 + s.height - 1 - y)) = _
    rw [show s.height - 1 - (0 + s.height - 1 - y) = y by omega]
  have hmono : s.xorBpp ≠ 1 ∧ ¬ (s.xorBpp = 4 ∨ s.xorBpp = 8) := by omega
  unfold shapeToBgra
  rw [hvalid maxLargeSize hwidth.2 hheight.2]
  change (if s.xorBpp = 4 ∨ s.xorBpp = 8 then _ else _) = _
  rw [if_neg hmono.2, hdrawn]
  change Except.ok ((if s.xorBpp = 1 then _ else (lines.map fun row => row.map (·.shown s.xorBpp)).reverse).flatMap
    fun line => line.flatMap Bgra.bytes) = _
  rw [if_neg hmono.1, ← map_reverse, hreverse, map_map, flatMap_map, mapPixels_rows _ hlen]
  rfl

/-! ### Updates -/

/-- The pad that farland always writes. -/
def padSize : ℕ := 1

/-- Both masks, once their lengths have been checked against the shape, then the optional pad. -/
def readMasks (s : Shape) (andLength xorLength maxDimension start : ℕ) : Parse Shape := do
  if xorLength ≠ xorStride s.width s.xorBpp * s.height then
    Parse.fail .invalidLength "pointer XOR mask length does not match its size" start
  else if andLength ≠ andStride s.width * s.height then
    Parse.fail .invalidLength "pointer AND mask length does not match its size" start
  else do
    let xorMask ← bytes xorLength
    let andMask ← bytes andLength
    let remaining ← left
    if remaining = padSize then skip padSize else pure ()
    expectEnd "pointer attribute"
    match validate { s with xorMask, andMask } maxDimension with
    | .ok () => pure { s with xorMask, andMask }
    | .error e => Parse.fail e.code e.what start

/-- The dimensions are checked before any mask is read. -/
def readShape (s : Shape) (andLength xorLength maxDimension start : ℕ) : Parse Shape :=
  match checkHeader s maxDimension start with
  | .error e => Parse.fail e.code e.what e.offset
  | .ok () => readMasks s andLength xorLength maxDimension start

def decodeColorAttribute : Parse Shape := do
  let start ← at_
  let cacheIndex ← u16le
  let hotspotX ← u16le
  let hotspotY ← u16le
  let width ← u16le
  let height ← u16le
  let andLength ← u16le
  let xorLength ← u16le
  readShape { xorBpp, cacheIndex, hotspotX, hotspotY, width, height } andLength xorLength maxSize start

def decodeNewAttribute : Parse Shape := do
  let xorBpp ← u16le
  decodeColorAttribute xorBpp

def decodeLargeAttribute : Parse Shape := do
  let start ← at_
  let xorBpp ← u16le
  let cacheIndex ← u16le
  let hotspotX ← u16le
  let hotspotY ← u16le
  let width ← u16le
  let height ← u16le
  let andLength ← u32le
  let xorLength ← u32le
  readShape { xorBpp, cacheIndex, hotspotX, hotspotY, width, height } andLength xorLength maxLargeSize start

def decodePosition : Parse Update := do
  let x ← u16le
  let y ← u16le
  expectEnd "pointer position update"
  pure (.position x y)

def decodeCached : Parse Update := do
  let cacheIndex ← u16le
  expectEnd "cached pointer update"
  pure (.cached cacheIndex)

/-- The fast-path updateCode. -/
def fastpathCode : Update → ℕ
  | .hidden => 0x5
  | .default => 0x6
  | .position _ _ => 0x8
  | .color _ => 0x9
  | .cached _ => 0xA
  | .new _ => 0xB
  | .large _ => 0xC

def decodeFastpath : ℕ → Parse Update
  | 0x5 => do
    expectEnd "fast-path pointer hidden update"
    pure .hidden
  | 0x6 => do
    expectEnd "fast-path pointer default update"
    pure .default
  | 0x8 => decodePosition
  | 0x9 => .color <$> decodeColorAttribute 24
  | 0xA => decodeCached
  | 0xB => .new <$> decodeNewAttribute
  | 0xC => .large <$> decodeLargeAttribute
  | _ => do
    let offset ← at_
    Parse.fail .invalidValue "not a fast-path pointer update" offset

/-- `system_pointer::null` and `default_pointer`. -/
def systemNull : ℕ := 0x00000000
def systemDefault : ℕ := 0x00007F00

/-- `none` is a failed assertion: large pointers have no slow-path form. -/
def encodeSlowPath (update : Update) : Option (List UInt8) :=
  let header (type : ℕ) := Writer.u16le type ++ Writer.u16le 0
  match update with
  | .hidden => some (header 0x0001 ++ Writer.u32le systemNull)
  | .default => some (header 0x0001 ++ Writer.u32le systemDefault)
  | .position x y => some (header 0x0003 ++ (Writer.u16le x ++ Writer.u16le y))
  | .color s => do
    asserts (s.xorBpp = 24)
    let fields ← encodeColorAttribute s
    pure (header 0x0006 ++ fields)
  | .new s => do
    let fields ← encodeColorAttribute s
    pure (header 0x0008 ++ (Writer.u16le s.xorBpp ++ fields))
  | .cached cacheIndex => some (header 0x0007 ++ Writer.u16le cacheIndex)
  | .large _ => none

/-- What stands behind the messageType and its pad. -/
def slowPathUpdate (start : ℕ) : ℕ → Parse Update
  | 0x0001 => do
    let system ← u32le
    expectEnd "system pointer update"
    if system = systemNull then pure .hidden
    else if system = systemDefault then pure .default
    else Parse.fail .invalidValue "unknown system pointer type" (start + 4)
  | 0x0003 => decodePosition
  | 0x0006 => .color <$> decodeColorAttribute 24
  | 0x0007 => decodeCached
  | 0x0008 => .new <$> decodeNewAttribute
  | _ => Parse.fail .invalidValue "unknown pointer messageType" start

def decodeSlowPath : Parse Update := do
  let start ← at_
  let type ← u16le
  skip 2
  slowPathUpdate start type

/-! ### Round trips -/

/-- The fields have the widths of their types. -/
structure Shape.Typed (s : Shape) : Prop where
  cacheIndex : s.cacheIndex < 2 ^ 16
  hotspotX : s.hotspotX < 2 ^ 16
  hotspotY : s.hotspotY < 2 ^ 16

variable {s : Shape} {maxDimension : ℕ}

theorem checkHeader_ok {start : ℕ} : checkHeader s maxDimension start = .ok () ↔
    (0 < s.width ∧ s.width ≤ maxDimension) ∧ (0 < s.height ∧ s.height ≤ maxDimension) ∧ s.xorBpp ∈ validDepths := by
  unfold checkHeader
  split_ifs with hempty hlarge hdepth
  · exact ⟨fun h => (by cases h), fun h => by omega⟩
  · exact ⟨fun h => (by cases h), fun h => by omega⟩
  · exact ⟨fun _ => ⟨by omega, by omega, hdepth⟩, fun _ => rfl⟩
  · exact ⟨fun h => (by cases h), fun h => absurd h.2.2 hdepth⟩

theorem validate_inv (h : validate s maxDimension = .ok ()) :
    checkHeader s maxDimension 0 = .ok () ∧ s.xorMask.length = xorStride s.width s.xorBpp * s.height ∧
      s.andMask.length = andStride s.width * s.height := by
  unfold validate at h
  rcases hheader : checkHeader s maxDimension 0 with e | u
  · rw [hheader] at h
    cases h
  · rw [hheader] at h
    change (if s.xorMask.length ≠ xorStride s.width s.xorBpp * s.height then _ else
      if s.andMask.length ≠ andStride s.width * s.height then _ else _) = _ at h
    split_ifs at h with hxor hand
    · cases h
    · cases h
    · exact ⟨rfl, not_not.mp hxor, not_not.mp hand⟩

theorem xorStride_le {width xorBpp side depth : ℕ} (hwidth : width ≤ side) (hdepth : xorBpp ≤ depth) :
    xorStride width xorBpp ≤ (side * depth + 7) / 8 + 1 := by
  have hbits : width * xorBpp ≤ side * depth := Nat.mul_le_mul hwidth hdepth
  unfold xorStride
  omega

/-- The masks of a valid shape have lengths that their fields hold. -/
theorem mask_lengths (h : validate s maxDimension = .ok ()) :
    s.xorBpp ≤ 32 ∧ s.width ≤ maxDimension ∧ s.height ≤ maxDimension ∧
      s.xorMask.length ≤ ((maxDimension * 32 + 7) / 8 + 1) * maxDimension ∧
      s.andMask.length ≤ ((maxDimension * 32 + 7) / 8 + 1) * maxDimension := by
  obtain ⟨hheader, hxor, hand⟩ := validate_inv h
  obtain ⟨⟨-, hwidth⟩, ⟨-, hheight⟩, hdepth⟩ := checkHeader_ok.mp hheader
  have hbpp : s.xorBpp ≤ 32 := by
    simp only [validDepths, mem_cons, not_mem_nil, or_false] at hdepth
    omega
  refine ⟨hbpp, hwidth, hheight, ?_, ?_⟩
  · rw [hxor]
    exact Nat.mul_le_mul (xorStride_le hwidth hbpp) hheight
  · rw [hand]
    exact Nat.mul_le_mul (xorStride_le hwidth (by decide)) hheight

theorem readShape_reads (h : validate s maxDimension = .ok ()) (start : ℕ) :
    (readShape { s with xorMask := [], andMask := [] } s.andMask.length s.xorMask.length maxDimension start).Reads
      (s.xorMask ++ (s.andMask ++ Writer.u8 0)) s := by
  obtain ⟨hheader, hxor, hand⟩ := validate_inv h
  have hstart : checkHeader { s with xorMask := [], andMask := [] } maxDimension start = .ok () :=
    checkHeader_ok.mpr (checkHeader_ok.mp hheader)
  unfold readShape
  rw [hstart]
  refine Reads.unless (not_not.mpr hxor) (Reads.unless (not_not.mpr hand) ?_)
  refine (bytes_readsBack s.xorMask).then ((bytes_readsBack s.andMask).then (.left ?_))
  have hpad : (Reader.skip padSize).ReadsBack (Writer.u8 0) () := fun rest o => Reader.skip_append _ rest o rfl
  refine hpad.last (expectEnd_reads _ ?_)
  rw [h]
  exact (ReadsBack.pure s).reads

/-- The bytes of a shape, with lengths that `write` puts in front of the masks. -/
def shapeBytes (s : Shape) (write : ℕ → List UInt8) : List UInt8 :=
  Writer.u16le s.cacheIndex ++ (Writer.u16le s.hotspotX ++ (Writer.u16le s.hotspotY ++ (Writer.u16le s.width ++
    (Writer.u16le s.height ++ (write s.andMask.length ++ (write s.xorMask.length ++
    (s.xorMask ++ (s.andMask ++ Writer.u8 0))))))))

theorem encodeColorAttribute_eq (h : validate s maxSize = .ok ()) :
    encodeColorAttribute s = some (shapeBytes s Writer.u16le) := by
  rw [encodeColorAttribute, asserts, if_pos h]
  simp only [shapeBytes, writeShapeFields, append_assoc, Option.bind_eq_bind, Option.bind_some, Option.pure_def]

theorem encodeLargeAttribute_eq (h : validate s maxLargeSize = .ok ()) :
    encodeLargeAttribute s = some (Writer.u16le s.xorBpp ++ shapeBytes s Writer.u32le) := by
  rw [encodeLargeAttribute, asserts, if_pos h]
  simp only [shapeBytes, writeShapeFields, append_assoc, Option.bind_eq_bind, Option.bind_some, Option.pure_def]

theorem decodeColorAttribute_reads (h : validate s maxSize = .ok ()) (hs : s.Typed) :
    (decodeColorAttribute s.xorBpp).Reads (shapeBytes s Writer.u16le) s := by
  obtain ⟨-, hwidth, hheight, hxor, hand⟩ := mask_lengths h
  unfold maxSize at hwidth hheight hxor hand
  refine .at_ fun start => (u16le_readsBack hs.cacheIndex).then ((u16le_readsBack hs.hotspotX).then ?_)
  refine (u16le_readsBack hs.hotspotY).then ((u16le_readsBack (show s.width < 2 ^ 16 by omega)).then ?_)
  refine (u16le_readsBack (show s.height < 2 ^ 16 by omega)).then ?_
  refine (u16le_readsBack (show s.andMask.length < 2 ^ 16 by omega)).then ?_
  exact (u16le_readsBack (show s.xorMask.length < 2 ^ 16 by omega)).then (readShape_reads h start)

theorem decodeNewAttribute_reads (h : validate s maxSize = .ok ()) (hs : s.Typed) :
    decodeNewAttribute.Reads (Writer.u16le s.xorBpp ++ shapeBytes s Writer.u16le) s := by
  have hbpp := (mask_lengths h).1
  exact (u16le_readsBack (by omega)).then (decodeColorAttribute_reads h hs)

theorem decodeLargeAttribute_reads (h : validate s maxLargeSize = .ok ()) (hs : s.Typed) :
    decodeLargeAttribute.Reads (Writer.u16le s.xorBpp ++ shapeBytes s Writer.u32le) s := by
  obtain ⟨hbpp, hwidth, hheight, hxor, hand⟩ := mask_lengths h
  unfold maxLargeSize at hwidth hheight hxor hand
  refine .at_ fun start => (u16le_readsBack (by omega)).then ((u16le_readsBack hs.cacheIndex).then ?_)
  refine (u16le_readsBack hs.hotspotX).then ((u16le_readsBack hs.hotspotY).then ?_)
  refine (u16le_readsBack (show s.width < 2 ^ 16 by omega)).then ?_
  refine (u16le_readsBack (show s.height < 2 ^ 16 by omega)).then ?_
  refine (u32le_readsBack (show s.andMask.length < 2 ^ 32 by omega)).then ?_
  exact (u32le_readsBack (show s.xorMask.length < 2 ^ 32 by omega)).then (readShape_reads h start)

/-- A shape that validates for the kind of its message, with fields of the widths of their types. -/
def Update.Valid : Update → Prop
  | .hidden | .default => True
  | .position x y => x < 2 ^ 16 ∧ y < 2 ^ 16
  | .color s => s.xorBpp = 24 ∧ validate s maxSize = .ok () ∧ s.Typed
  | .new s => validate s maxSize = .ok () ∧ s.Typed
  | .large s => validate s maxLargeSize = .ok () ∧ s.Typed
  | .cached cacheIndex => cacheIndex < 2 ^ 16

theorem decodePosition_reads {x y : ℕ} (hx : x < 2 ^ 16) (hy : y < 2 ^ 16) :
    decodePosition.Reads (Writer.u16le x ++ Writer.u16le y) (.position x y) :=
  (u16le_readsBack hx).then ((u16le_readsBack hy).last (expectEnd_reads _ (ReadsBack.pure _).reads))

theorem decodeCached_reads {cacheIndex : ℕ} (h : cacheIndex < 2 ^ 16) :
    decodeCached.Reads (Writer.u16le cacheIndex) (.cached cacheIndex) :=
  (u16le_readsBack h).last (expectEnd_reads _ (ReadsBack.pure _).reads)

/-- **On the fast path an update comes back.** -/
theorem decodeFastpath_reads {update : Update} (h : update.Valid) :
    ∃ bytes, encodeFastpath update = some bytes ∧ (decodeFastpath (fastpathCode update)).Reads bytes update := by
  cases update with
  | hidden | default => exact ⟨[], rfl, expectEnd_reads _ (ReadsBack.pure _).reads⟩
  | position x y => exact ⟨_, rfl, decodePosition_reads h.1 h.2⟩
  | cached cacheIndex => exact ⟨_, rfl, decodeCached_reads h⟩
  | color s =>
    obtain ⟨hbpp, hvalid, hs⟩ := h
    have hread := decodeColorAttribute_reads hvalid hs
    rw [hbpp] at hread
    refine ⟨_, ?_, hread.map⟩
    rw [encodeFastpath, asserts, if_pos hbpp, encodeColorAttribute_eq hvalid]
    rfl
  | new s =>
    refine ⟨_, ?_, (decodeNewAttribute_reads h.1 h.2).map⟩
    rw [encodeFastpath, encodeColorAttribute_eq h.1]
    rfl
  | large s => exact ⟨_, encodeLargeAttribute_eq h.1, (decodeLargeAttribute_reads h.1 h.2).map⟩

/-- **And on the slow path**, which has no large pointers. -/
theorem decodeSlowPath_reads {update : Update} (h : update.Valid) (hlarge : ∀ s, update ≠ .large s) :
    ∃ bytes, encodeSlowPath update = some bytes ∧ decodeSlowPath.Reads bytes update := by
  have hheader : ∀ {type : ℕ} {fields : List UInt8}, type < 2 ^ 16 →
      (∀ start, (slowPathUpdate start type).Reads fields update) →
      decodeSlowPath.Reads (Writer.u16le type ++ Writer.u16le 0 ++ fields) update := by
    intro type fields hlt hfields
    have hpad : (Reader.skip 2).ReadsBack (Writer.u16le 0) () := fun rest o => Reader.skip_append _ rest o rfl
    exact .at_ fun start => (u16le_readsBack hlt).then (hpad.then (hfields start))
  cases update with
  | hidden =>
    refine ⟨_, rfl, hheader (by decide) fun start => (u32le_readsBack (show systemNull < 2 ^ 32 by decide)).last ?_⟩
    exact expectEnd_reads _ (ReadsBack.pure _).reads
  | default =>
    refine ⟨_, rfl, hheader (by decide) fun start => (u32le_readsBack (show systemDefault < 2 ^ 32 by decide)).last ?_⟩
    exact expectEnd_reads _ (ReadsBack.pure _).reads
  | position x y => exact ⟨_, rfl, hheader (by decide) fun _ => decodePosition_reads h.1 h.2⟩
  | cached cacheIndex => exact ⟨_, rfl, hheader (by decide) fun _ => decodeCached_reads h⟩
  | color s =>
    obtain ⟨hbpp, hvalid, hs⟩ := h
    have hread := decodeColorAttribute_reads hvalid hs
    rw [hbpp] at hread
    refine ⟨_, ?_, hheader (show 0x0006 < 2 ^ 16 by decide) fun _ => hread.map⟩
    rw [encodeSlowPath, asserts, if_pos hbpp, encodeColorAttribute_eq hvalid]
    rfl
  | new s =>
    refine ⟨_, ?_, hheader (show 0x0008 < 2 ^ 16 by decide) fun _ => (decodeNewAttribute_reads h.1 h.2).map⟩
    rw [encodeSlowPath, encodeColorAttribute_eq h.1]
    rfl
  | large s => exact absurd rfl (hlarge s)

/-- **Pointers come back**: an image as it is shown, and every valid update, in the bytes that are reserved for it,
on each path that carries it. -/
theorem pointer_roundTrip :
    (∀ (bgra : List UInt8) (width height xorBpp : ℕ), xorBpp = 24 ∨ xorBpp = 32 → 0 < width ∧ width ≤ maxLargeSize →
      0 < height ∧ height ≤ maxLargeSize → bgra.length = width * height * 4 →
      ∃ s, shapeFromBgra bgra width height xorBpp = some s ∧
        (∀ maxDimension, width ≤ maxDimension → height ≤ maxDimension → validate s maxDimension = .ok ()) ∧
        shapeToBgra s = .ok (mapPixels (Bgra.shown xorBpp) bgra)) ∧
    ∀ update : Update, update.Valid →
      (∃ bytes, encodeFastpath update = some bytes ∧ bytes.length = fastpathSize update ∧
        (decodeFastpath (fastpathCode update)).Reads bytes update) ∧
      ((∀ s, update ≠ .large s) → ∃ bytes, encodeSlowPath update = some bytes ∧ decodeSlowPath.Reads bytes update) := by
  refine ⟨fun bgra width height xorBpp hbpp hwidth hheight hlen => shapeToBgra_fromBgra hbpp hwidth hheight hlen,
    fun update h => ⟨?_, decodeSlowPath_reads h⟩⟩
  obtain ⟨bytes, hbytes, hreads⟩ := decodeFastpath_reads h
  exact ⟨bytes, hbytes, encodeFastpath_length hbytes, hreads⟩

/-- Three by two pixels; at 24 bits the third of the first row and the first
of the second are clear. -/
def arrow : List UInt8 :=
  [1, 2, 3, 0xFF, 4, 5, 6, 0x80, 7, 8, 9, 0x7F] ++ [10, 11, 12, 0, 13, 14, 15, 0xFF, 16, 17, 18, 0xC0]

def arrowShape : Shape :=
  { xorBpp := 24, cacheIndex := 1, hotspotX := 2, width := 3, height := 2
    xorMask := [0, 0, 0, 13, 14, 15, 16, 17, 18, 0] ++ [1, 2, 3, 4, 5, 6, 0, 0, 0, 0]
    andMask := [0x80, 0, 0x20, 0] }

theorem pointer_roundTrip_arrow :
    (shapeFromBgra arrow 3 2 24 = some { arrowShape with cacheIndex := 0, hotspotX := 0 } ∧
      ∃ s, shapeFromBgra arrow 3 2 24 = some s ∧
        shapeToBgra s = .ok ([1, 2, 3, 0xFF, 4, 5, 6, 0xFF, 0, 0, 0, 0] ++
          [0, 0, 0, 0, 13, 14, 15, 0xFF, 16, 17, 18, 0xFF])) ∧
      (∃ bytes, encodeFastpath (.color arrowShape) = some bytes ∧ bytes.length = 39 ∧
        (decodeFastpath (fastpathCode (.color arrowShape))).Reads bytes (.color arrowShape)) ∧
      ∃ bytes, encodeSlowPath (.new arrowShape) = some bytes ∧ decodeSlowPath.Reads bytes (.new arrowShape) := by
  have hvalid : validate arrowShape maxSize = .ok () := by decide
  have htyped : arrowShape.Typed := ⟨by decide, by decide, by decide⟩
  obtain ⟨s, hs, -, hshown⟩ := pointer_roundTrip.1 arrow 3 2 24 (.inl rfl) (by decide) (by decide) (by decide)
  exact ⟨⟨by decide, s, hs, hshown⟩, (pointer_roundTrip.2 (.color arrowShape) ⟨rfl, hvalid, htyped⟩).1,
    (pointer_roundTrip.2 (.new arrowShape) ⟨hvalid, htyped⟩).2 fun s h => by cases h⟩

end Pointer
end Proto
end Farland
