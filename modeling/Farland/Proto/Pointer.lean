/-
# Pointer updates

The server tells the client which mouse pointer to draw (`proto/pointer.cpp`):
the updates, the sizes of their masks, the fast-path encoder with its
assertions, and the building of a shape from straight-alpha BGRA. Both masks
are bottom-up with every scan line padded to two bytes.

Key theorems: `shapeFromBgra_some`, `encodeFastpath_length`.
-/
import Farland.Base.Reader

namespace Farland
namespace Proto
namespace Pointer

open List

def maxSize : ℕ := 96
def maxLargeSize : ℕ := 384

/-- A pointer image as it travels. -/
structure Shape where
  xorBpp : ℕ := 32
  cacheIndex : ℕ := 0
  hotspotX : ℕ := 0
  hotspotY : ℕ := 0
  width : ℕ := 0
  height : ℕ := 0
  xorMask : List UInt8 := []
  andMask : List UInt8 := []
  deriving DecidableEq

inductive Update where
  | hidden
  | default
  | position (x y : ℕ)
  | color (shape : Shape)
  | new (shape : Shape)
  | large (shape : Shape)
  | cached (cacheIndex : ℕ)
  deriving DecidableEq

/-- Bytes per XOR mask scan line. -/
def xorStride (width xorBpp : ℕ) : ℕ := ((width * xorBpp + 7) / 8 + 1) / 2 * 2

/-- Bytes per AND mask scan line. -/
def andStride (width : ℕ) : ℕ := xorStride width 1

def validDepths : List ℕ := [1, 4, 8, 15, 16, 24, 32]

variable (s : Shape)

def checkHeader (maxDimension start : ℕ) : Result Unit :=
  if s.width = 0 ∨ s.height = 0 then fail .invalidValue "empty pointer shape" start
  else if maxDimension < s.width ∨ maxDimension < s.height then
    fail .limitExceeded "pointer shape too large" start
  else if s.xorBpp ∉ validDepths then fail .invalidValue "invalid pointer xorBpp" start
  else .ok ()

/-- The size, the depth and the lengths of the masks. -/
def validate (maxDimension : ℕ) : Result Unit := do
  checkHeader s maxDimension 0
  if s.xorMask.length ≠ xorStride s.width s.xorBpp * s.height then
    fail .invalidLength "pointer XOR mask length does not match its size"
  else if s.andMask.length ≠ andStride s.width * s.height then
    fail .invalidLength "pointer AND mask length does not match its size"
  else .ok ()

def maskBytes : ℕ := s.xorMask.length + s.andMask.length

/-- Bytes that `encodeFastpath` writes. -/
def fastpathSize : Update → ℕ
  | .hidden | .default => 0
  | .position _ _ => 4
  | .color s => 14 + maskBytes s + 1
  | .new s => 2 + 14 + maskBytes s + 1
  | .large s => 20 + maskBytes s + 1
  | .cached _ => 2

open Writer

def writeShapeFields : List UInt8 :=
  u16le s.hotspotX ++ u16le s.hotspotY ++ u16le s.width ++ u16le s.height

/-- TS_COLORPOINTERATTRIBUTE. -/
def encodeColorAttribute : Option (List UInt8) := do
  asserts (validate s maxSize = .ok ())
  pure (u16le s.cacheIndex ++ writeShapeFields s ++ u16le s.andMask.length ++ u16le s.xorMask.length ++
    s.xorMask ++ s.andMask ++ u8 0)

/-- TS_FP_LARGEPOINTERATTRIBUTE after the update header. -/
def encodeLargeAttribute : Option (List UInt8) := do
  asserts (validate s maxLargeSize = .ok ())
  pure (u16le s.xorBpp ++ u16le s.cacheIndex ++ writeShapeFields s ++ u32le s.andMask.length ++
    u32le s.xorMask.length ++ s.xorMask ++ s.andMask ++ u8 0)

/-- The data of the fast-path update. -/
def encodeFastpath : Update → Option (List UInt8)
  | .hidden | .default => some []
  | .position x y => some (u16le x ++ u16le y)
  | .color s => do
    asserts (s.xorBpp = 24)
    encodeColorAttribute s
  | .new s => (encodeColorAttribute s).map (u16le s.xorBpp ++ ·)
  | .large s => encodeLargeAttribute s
  | .cached cacheIndex => some (u16le cacheIndex)

/-! ### From a picture -/

/-- One pixel, straight alpha. -/
structure Bgra where
  b : UInt8
  g : UInt8
  r : UInt8
  a : UInt8
  deriving DecidableEq

variable (bgra : List UInt8)

def pixelAt (width x y : ℕ) : Bgra :=
  ⟨bgra.getD ((y * width + x) * 4) 0, bgra.getD ((y * width + x) * 4 + 1) 0, bgra.getD ((y * width + x) * 4 + 2) 0,
    bgra.getD ((y * width + x) * 4 + 3) 0⟩

/-- Fully transparent at 32 bits, more transparent than not at 24. -/
def Bgra.isClear (p : Bgra) (xorBpp : ℕ) : Bool := if xorBpp = 32 then p.a == 0 else p.a.toNat < 0x80

def Bgra.xorBytes (p : Bgra) (xorBpp : ℕ) : List UInt8 :=
  if p.isClear xorBpp then zeros (xorBpp / 8)
  else if xorBpp = 32 then [p.b, p.g, p.r, p.a]
  else [p.b, p.g, p.r]

variable (pixels : List Bgra) (xorBpp : ℕ)

/-- A scan line of the XOR mask. -/
def xorLine : List UInt8 :=
  pixels.flatMap (·.xorBytes xorBpp) ++ zeros (xorStride pixels.length xorBpp - pixels.length * (xorBpp / 8))

/-- Byte `j` of a scan line of the AND mask, most significant bit first. -/
def andByte (j : ℕ) : UInt8 :=
  ((List.range 8).map fun bit =>
    if (pixels[j * 8 + bit]?).elim false (·.isClear xorBpp) then (0x80 : UInt8) >>> UInt8.ofNat bit else 0).foldl
      (· ||| ·) 0

def andLine : List UInt8 :=
  (List.range (andStride pixels.length)).map (andByte pixels xorBpp)

def pixelRow (width y : ℕ) : List Bgra := (List.range width).map (pixelAt bgra width · y)

/-- The masks of a 24 or 32 bpp shape from BGRA, top-down. -/
def shapeFromBgra (width height xorBpp : ℕ) : Option Shape := do
  asserts (xorBpp = 24 ∨ xorBpp = 32)
  asserts (0 < width ∧ 0 < height ∧ bgra.length = width * height * 4)
  pure {
    xorBpp, width, height
    xorMask := (List.range height).flatMap fun line => xorLine (pixelRow bgra width (height - 1 - line)) xorBpp
    andMask := (List.range height).flatMap fun line => andLine (pixelRow bgra width (height - 1 - line)) xorBpp }

/-! ### Lengths -/

theorem length_flatMap_const {α β : Type} (f : α → List β) (n : ℕ) :
    ∀ l : List α, (∀ a ∈ l, (f a).length = n) → (l.flatMap f).length = n * l.length
  | [], _ => rfl
  | a :: l, h => by
    have ih := length_flatMap_const f n l fun b hb => h b (mem_cons_of_mem _ hb)
    rw [flatMap_cons, length_append, h a mem_cons_self, ih, length_cons]
    ring

theorem Bgra.xorBytes_length (p : Bgra) {xorBpp : ℕ} (h : xorBpp = 24 ∨ xorBpp = 32) :
    (p.xorBytes xorBpp).length = xorBpp / 8 := by
  unfold Bgra.xorBytes
  rcases h with rfl | rfl
  · split_ifs <;> simp_all
  · split_ifs <;> simp_all

theorem xorLine_length {xorBpp : ℕ} (h : xorBpp = 24 ∨ xorBpp = 32) :
    (xorLine pixels xorBpp).length = xorStride pixels.length xorBpp := by
  have hpixels := length_flatMap_const (fun p : Bgra => p.xorBytes xorBpp) (xorBpp / 8) pixels
    fun p _ => p.xorBytes_length h
  have hroom : pixels.length * (xorBpp / 8) ≤ xorStride pixels.length xorBpp := by
    unfold xorStride
    rcases h with rfl | rfl <;> omega
  rw [xorLine, length_append, hpixels, zeros_length, Nat.mul_comm]
  omega

theorem andLine_length : (andLine pixels xorBpp).length = andStride pixels.length := by
  simp [andLine]

/-- **A shape built from an image has its size, and masks of the right lengths.** -/
theorem shapeFromBgra_some {bgra : List UInt8} {width height xorBpp : ℕ} (hbpp : xorBpp = 24 ∨ xorBpp = 32)
    (hsize : 0 < width ∧ 0 < height ∧ bgra.length = width * height * 4) :
    ∃ s, shapeFromBgra bgra width height xorBpp = some s ∧ s.xorBpp = xorBpp ∧ s.width = width ∧ s.height = height ∧
      s.xorMask.length = xorStride width xorBpp * height ∧ s.andMask.length = andStride width * height := by
  have hrow : ∀ y, (pixelRow bgra width y).length = width := fun y => by simp [pixelRow]
  have hxor := length_flatMap_const (fun line => xorLine (pixelRow bgra width (height - 1 - line)) xorBpp)
    (xorStride width xorBpp) (List.range height) fun line _ => by rw [xorLine_length _ hbpp, hrow]
  have hand := length_flatMap_const (fun line => andLine (pixelRow bgra width (height - 1 - line)) xorBpp)
    (andStride width) (List.range height) fun line _ => by rw [andLine_length, hrow]
  rw [length_range] at hxor hand
  refine ⟨_, by rw [shapeFromBgra, asserts, asserts, if_pos hbpp, if_pos hsize]; rfl, rfl, rfl, rfl, hxor, hand⟩

variable {s : Shape}

theorem validate_ok {maxDimension : ℕ} (hwidth : 0 < s.width ∧ s.width ≤ maxDimension)
    (hheight : 0 < s.height ∧ s.height ≤ maxDimension) (hbpp : s.xorBpp ∈ validDepths)
    (hxor : s.xorMask.length = xorStride s.width s.xorBpp * s.height)
    (hand : s.andMask.length = andStride s.width * s.height) : validate s maxDimension = .ok () := by
  have hempty : ¬ (s.width = 0 ∨ s.height = 0) := by omega
  have hlarge : ¬ (maxDimension < s.width ∨ maxDimension < s.height) := by omega
  have hheader : checkHeader s maxDimension 0 = .ok () := by
    rw [checkHeader, if_neg hempty, if_neg hlarge, if_neg (not_not_intro hbpp)]
  rw [validate, hheader]
  change (if s.xorMask.length ≠ xorStride s.width s.xorBpp * s.height then _ else _) = _
  rw [if_neg (not_not_intro hxor), if_neg (not_not_intro hand)]

theorem encodeColorAttribute_some (h : validate s maxSize = .ok ()) : ∃ bytes, encodeColorAttribute s = some bytes := by
  rw [encodeColorAttribute, asserts, if_pos h]
  exact ⟨_, rfl⟩

theorem encodeLargeAttribute_some (h : validate s maxLargeSize = .ok ()) :
    ∃ bytes, encodeLargeAttribute s = some bytes := by
  rw [encodeLargeAttribute, asserts, if_pos h]
  exact ⟨_, rfl⟩

variable {bytes : List UInt8}

theorem encodeColorAttribute_length (h : encodeColorAttribute s = some bytes) :
    bytes.length = 14 + maskBytes s + 1 := by
  unfold encodeColorAttribute asserts at h
  split_ifs at h
  · obtain rfl : _ = bytes := Option.some.inj h
    simp [writeShapeFields, maskBytes]
    omega
  · cases h

theorem encodeLargeAttribute_length (h : encodeLargeAttribute s = some bytes) :
    bytes.length = 20 + maskBytes s + 1 := by
  unfold encodeLargeAttribute asserts at h
  split_ifs at h
  · obtain rfl : _ = bytes := Option.some.inj h
    simp [writeShapeFields, maskBytes]
    omega
  · cases h

/-- **An update takes the bytes that are reserved for it.** -/
theorem encodeFastpath_length {update : Update} (h : encodeFastpath update = some bytes) :
    bytes.length = fastpathSize update := by
  cases update with
  | hidden | default | position x y | cached cacheIndex => cases h; rfl
  | color s =>
    obtain ⟨-, -, h⟩ := Option.bind_eq_some_iff.mp h
    exact encodeColorAttribute_length h
  | new s =>
    obtain ⟨rest, hrest, rfl⟩ := Option.map_eq_some_iff.mp h
    have hlen := encodeColorAttribute_length hrest
    simp only [length_append, u16le_length, fastpathSize]
    omega
  | large s => exact encodeLargeAttribute_length h

end Pointer
end Proto
end Farland
