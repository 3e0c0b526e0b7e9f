/-
# The cursor encoder

Cursor updates of the platform become pointer updates
(`server/cursor_encoder.cpp`): shapes go to the slots of the client's pointer
cache, of which the encoder keeps a mirror with the least recently used slot
taken first, and a shape that a slot holds already costs a cached pointer
update. Nothing is sent for what the client is believed to show.

A client (`Client`) stores every shape under its cache index and shows what
the last update says. `Inv` says what the mirror knows about it; every call
keeps it, so after every call the client shows what the calls ask for
(`CursorEncoder.wanted`).

The scaling of shapes that are too large is the source's, in double
precision. A pixel beyond the end of the image reads as 0, which takes an
image of `2 ^ 64` bytes.

Key theorems: `showShape_leads`, `run_coherent`.
-/
import Farland.Proto.Pointer

namespace Farland
namespace Server

open List Option Nat Bool

open Proto.Pointer (Shape Update)

structure CursorImage where
  width : ℕ := 0
  height : ℕ := 0
  hotspotX : ℤ := 0
  hotspotY : ℤ := 0
  pixels : List UInt8 := []
  deriving DecidableEq

structure CursorUpdate where
  /-- A new shape; `none` when it did not change. -/
  shape : Option CursorImage := none
  position : Option (ℤ × ℤ) := none
  visible : Bool := true
  deriving DecidableEq

namespace Cursor

structure Config where
  /-- Slots for New and Large Pointer Updates; 0 when the client takes none. -/
  pointerCacheSize : UInt16 := 0
  colorPointerCacheSize : UInt16 := 0
  maxSize : UInt16 := 32
  largePointers : Bool := false
  maxUpdateSize : ℕ := 0x3FFF - 64
  sendPositions : Bool := false
  deriving DecidableEq

inductive Kind where
  | color
  | new
  | large
  deriving DecidableEq

structure Layout where
  kind : Kind
  width : ℕ
  height : ℕ
  deriving DecidableEq

def slowPathHeader : ℕ := 4

def fnvStep (h v : ℕ) : ℕ := (h ^^^ v) * 0x100000001b3 % 2 ^ 64

def fnvMix (h v : ℕ) : ℕ := (List.range 8).foldl (fun h i => fnvStep h (v >>> (8 * i) &&& 0xFF)) h

def fnv1a (image : CursorImage) : ℕ :=
  image.pixels.foldl (fun h b => fnvStep h b.toNat)
    ([image.width, image.height, toUnsigned 32 image.hotspotX, toUnsigned 32 image.hotspotY].foldl fnvMix
      0xcbf29ce484222325)

def toU16 (v : ℤ) : ℕ := (max 0 (min v 65535)).toNat

/-- The hotspot inside the image, and one transparent pixel for an empty one. -/
def normalize (image : CursorImage) : Option CursorImage :=
  if image.width = 0 ∨ image.height = 0 then some ⟨1, 1, 0, 0, List.replicate 4 0⟩
  else if image.pixels.length ≠ image.width * image.height * 4 % 2 ^ 64 then none
  else some { image with
    hotspotX := max 0 (min image.hotspotX (image.width - 1))
    hotspotY := max 0 (min image.hotspotY (image.height - 1)) }

/-! ### Scaling -/

def scaledSide (limit side longest : ℕ) : ℕ :=
  max 1 (min (Float.ofNat side * Float.ofNat limit / Float.ofNat longest).round.toUInt32.toNat limit)

/-- The size that fits into a `limit` square. -/
def fit (width height limit : ℕ) : ℕ × ℕ :=
  if width ≤ limit ∧ height ≤ limit then (width, height)
  else if height ≤ width then (limit, scaledSide limit height width)
  else (scaledSide limit width height, limit)

/-- A source pixel that contributes to a destination pixel, along one axis. -/
structure Tap where
  index : ℕ
  weight : Float

def tap (first last : Float) (s : ℕ) : Option Tap :=
  let upper := if Float.ofNat s + 1.0 < last then Float.ofNat s + 1.0 else last
  let lower := if first < Float.ofNat s then Float.ofNat s else first
  if 0 < upper - lower then some ⟨s, upper - lower⟩ else none

def taps (source target : ℕ) : List (List Tap) :=
  let ratio := Float.ofNat source / Float.ofNat target
  (List.range target).map fun d =>
    let first := Float.ofNat d * ratio
    let last := Float.ofNat (d + 1) * ratio
    let start := first.toUInt32.toNat
    (((List.range (source - start)).map (start + ·)).takeWhile fun s => Float.ofNat s < last).filterMap (tap first last)

/-- What a destination pixel collects. -/
structure Sums where
  b : Float := 0
  g : Float := 0
  r : Float := 0
  a : Float := 0
  area : Float := 0

def Sums.add (sums : Sums) (source : CursorImage) (ty tx : Tap) : Sums :=
  let at_ (c : ℕ) : Float := Float.ofNat (source.pixels.getD ((ty.index * source.width + tx.index) * 4 + c) 0).toNat
  let w := ty.weight * tx.weight
  let alpha := at_ 3 * w
  ⟨sums.b + at_ 0 * alpha, sums.g + at_ 1 * alpha, sums.r + at_ 2 * alpha, sums.a + alpha, sums.area + w⟩

def toByte (v : Float) : UInt8 := v.round.toUInt8

def Sums.pixel (sums : Sums) : List UInt8 :=
  if 0 < sums.a then
    [toByte (sums.b / sums.a), toByte (sums.g / sums.a), toByte (sums.r / sums.a), toByte (sums.a / sums.area)]
  else [0, 0, 0, 0]

/-- Area-average downscale, averaging in premultiplied alpha. -/
def scale (source : CursorImage) (width height : ℕ) : List UInt8 :=
  let xs := taps source.width width
  (taps source.height height).flatMap fun ys =>
    xs.flatMap fun xs =>
      (ys.foldl (fun (sums : Sums) ty => xs.foldl (fun (sums : Sums) tx => sums.add source ty tx) sums) {}).pixel

/-- Where the hotspot pixel lands. -/
def scaleHotspot (hotspot : ℤ) (source target : ℕ) : ℕ :=
  if source = target then toUnsigned 16 hotspot
  else min ((Float.ofInt hotspot + 0.5) * Float.ofNat target / Float.ofNat source).toUInt32.toNat (target - 1) % 65536

/-! ### The encoder -/

structure Slot where
  used : Bool := false
  hash : ℕ := 0
  lastUsed : ℕ := 0
  image : CursorImage := {}
  deriving DecidableEq

inductive Shown where
  | systemDefault
  | hidden
  | slot
  deriving DecidableEq

variable (c : Config)

def Config.cacheSize : ℕ :=
  if 0 < c.pointerCacheSize then c.pointerCacheSize.toNat else c.colorPointerCacheSize.toNat

def updateSize (bpp overhead width height : ℕ) : ℕ :=
  overhead + (Proto.Pointer.xorStride width bpp + Proto.Pointer.andStride width) * height

/-- The clients without a pointer cache take Color Pointer Updates. -/
def Config.color : Bool := c.pointerCacheSize = 0

/-- The limit of New and Color Pointer shapes. -/
def Config.small : ℕ := max 1 (min c.maxSize.toNat Proto.Pointer.maxSize)

/-- The layout at a limit, and the bytes it takes. -/
def Config.layoutAt (width height limit : ℕ) : Layout × ℕ :=
  let (w, h) := fit width height limit
  if c.color then (⟨.color, w, h⟩, updateSize 24 (14 + 1) w h)
  else if c.small < w ∨ c.small < h then (⟨.large, w, h⟩, updateSize 32 (20 + 1) w h)
  else (⟨.new, w, h⟩, updateSize 32 (2 + 14 + 1) w h)

/-- The first limit, from the given one down, at which the shape fits an update. -/
def Config.layoutBelow (c : Config) (width height : ℕ) : ℕ → Option Layout
  | 0 => none
  | limit + 1 =>
    if (c.layoutAt width height (limit + 1)).2 + slowPathHeader ≤ c.maxUpdateSize then
      some (c.layoutAt width height (limit + 1)).1
    else c.layoutBelow width height limit

def Config.chooseLayout (width height : ℕ) : Option Layout :=
  if c.cacheSize = 0 then none
  else c.layoutBelow width height (if c.largePointers && !c.color then Proto.Pointer.maxLargeSize else c.small)

def Kind.update : Kind → Shape → Update
  | .color => .color
  | .large => .large
  | .new => .new

def build (source : CursorImage) (layout : Layout) (cacheIndex : ℕ) : Option Update := do
  let native := layout.width = source.width ∧ layout.height = source.height
  let pixels := if native then source.pixels else scale source layout.width layout.height
  let shape ← Proto.Pointer.shapeFromBgra pixels layout.width layout.height (if layout.kind = .color then 24 else 32)
  pure (layout.kind.update { shape with
    cacheIndex
    hotspotX := scaleHotspot source.hotspotX source.width layout.width
    hotspotY := scaleHotspot source.hotspotY source.height layout.height })

/-- The first of the slots used longest ago. -/
def oldest (slots : List Slot) : ℕ :=
  (List.range slots.length).foldl
    (fun best i => if (slots.getD i {}).lastUsed < (slots.getD best {}).lastUsed then i else best) 0

def takeSlot (slots : List Slot) : ℕ := (slots.findIdx? fun s => !s.used).getD (oldest slots)

end Cursor

variable {shape : CursorImage} {limit width height i : ℕ} {layout : Layout}

open Cursor

structure CursorEncoder where
  config : Cursor.Config
  slots : List Slot := List.replicate config.cacheSize {}
  tick : ℕ := 0
  /-- Normalized. -/
  shape : Option CursorImage := none
  shapeHash : ℕ := 0
  visible : Bool := true
  position : Option (ℤ × ℤ) := none
  /-- What the client draws. -/
  shown : Shown := .systemDefault
  shownSlot : ℕ := 0
  deriving DecidableEq

namespace CursorEncoder

variable (e : CursorEncoder)

def slotHolds (shape : CursorImage) (index : ℕ) : Bool :=
  match e.slots[index]? with
  | some slot => slot.used && slot.hash == e.shapeHash && slot.image == shape
  | none => false

def nextTick : ℕ := (e.tick + 1) % 2 ^ 64

/-- The slot was used just now. -/
def touch (index : ℕ) : CursorEncoder :=
  { e with slots := e.slots.modify index fun slot => { slot with lastUsed := e.nextTick }, tick := e.nextTick }

def showSystem (target : Shown) : Option (CursorEncoder × List Update) := do
  asserts (target ≠ .slot)
  pure (if e.shown = target then (e, [])
    else ({ e with shown := target }, [if target = .hidden then .hidden else .default]))

/-- A shape that no slot holds goes to a slot of its own. -/
def cacheShape (shape : CursorImage) (layout : Layout) : Option (CursorEncoder × List Update) := do
  let index := takeSlot e.slots
  let update ← build shape layout (index % 65536)
  pure ({ e with
    slots := e.slots.set index ⟨true, e.shapeHash, e.nextTick, shape⟩, tick := e.nextTick
    shown := .slot, shownSlot := index }, [update])

/-- Makes the client show the current shape. -/
def showShape (shape : CursorImage) : Option (CursorEncoder × List Update) :=
  if e.shown = .slot ∧ e.slotHolds shape e.shownSlot then some (e.touch e.shownSlot, [])
  else match (List.range e.slots.length).find? (e.slotHolds shape) with
    | some i => some ({ e.touch i with shown := .slot, shownSlot := i }, [.cached (i % 65536)])
    | none => match e.config.chooseLayout shape.width shape.height with
      | none => e.showSystem .systemDefault
      | some layout => e.cacheShape shape layout

/-- A new shape, unless its pixels do not match its size. -/
def takeShape (image : CursorImage) : CursorEncoder :=
  match normalize image with
  | some shape => { e with shape := some shape, shapeHash := fnv1a shape }
  | none => e

def showCurrent : Option (CursorEncoder × List Update) :=
  if !e.visible then e.showSystem .hidden
  else match e.shape with
    | some shape => e.showShape shape
    | none => e.showSystem .systemDefault

/-- Pointer Position Updates, when they are wanted. -/
def reportPosition (position : Option (ℤ × ℤ)) : CursorEncoder × List Update :=
  match position with
  | none => (e, [])
  | some (x, y) =>
    ({ e with position := some (x, y) },
      if e.config.sendPositions ∧ e.position ≠ some (x, y) then [.position (toU16 x) (toU16 y)] else [])

/-- The updates that bring the client in line. -/
def encode (update : CursorUpdate) : Option (CursorEncoder × List Update) := do
  let e := (update.shape.elim e e.takeShape)
  let (e, out) ← showCurrent { e with visible := update.visible }
  let (e, moved) := e.reportPosition update.position
  pure (e, out ++ moved)

/-- A move by the server. -/
def warp (x y : ℤ) : CursorEncoder × Update :=
  ({ e with position := some (x, y) }, .position (toU16 x) (toU16 y))

def clientMoved (x y : ℤ) : CursorEncoder := { e with position := some (x, y) }

/-- Nothing is sent for the default pointer of a fresh client. -/
def showAgain : Option (CursorEncoder × List Update) :=
  if !e.visible then e.showSystem .hidden
  else match e.shape with
    | some shape => e.showShape shape
    | none => some (e, [])

/-- Starts over with an empty client cache. -/
def reset (config : Cursor.Config) : Option (CursorEncoder × List Update) := do
  let (e, out) ← showAgain { e with
    config, slots := List.replicate config.cacheSize {}, tick := 0, shown := .systemDefault }
  let moved := match e.position with
    | some (x, y) => if config.sendPositions then [Update.position (toU16 x) (toU16 y)] else []
    | none => []
  pure (e, out ++ moved)

end CursorEncoder

/-! ### The client -/

namespace Cursor

/-- What a client draws. -/
inductive Picture where
  | nothing
  | default
  | image (shape : Shape)
  deriving DecidableEq

/-- The picture of a shape, which its cache index is no part of. -/
def pictured (shape : Shape) : Picture := .image { shape with cacheIndex := 0 }

structure Client where
  cache : List (Option Shape)
  shows : Picture
  deriving DecidableEq

namespace Client

/-- With an empty cache and its default pointer. -/
def fresh (c : Config) : Client := ⟨List.replicate c.cacheSize none, .default⟩

def store (c : Client) (shape : Shape) : Option Client :=
  if shape.cacheIndex < c.cache.length then some ⟨c.cache.set shape.cacheIndex (some shape), pictured shape⟩ else none

/-- A client refuses an index beyond its cache and a slot that holds nothing. -/
def apply (c : Client) : Update → Option Client
  | .hidden => some { c with shows := .nothing }
  | .default => some { c with shows := .default }
  | .position _ _ => some c
  | .color shape | .new shape | .large shape => c.store shape
  | .cached cacheIndex => (c.cache[cacheIndex]?).join.map fun shape => { c with shows := pictured shape }

end Client

def shapeOf : Update → Option Shape
  | .color shape | .new shape | .large shape => some shape
  | _ => none

def indexOf : Update → Option ℕ
  | .color shape | .new shape | .large shape => some shape.cacheIndex
  | .cached cacheIndex => some cacheIndex
  | _ => none

/-- The index is one of the client's, and a shape with the header fits an update. -/
structure Fits (c : Config) (update : Update) : Prop where
  index : ∀ i, indexOf update = some i → i < c.cacheSize
  size : ∀ shape, shapeOf update = some shape →
    ∃ bytes, Proto.Pointer.encodeFastpath update = some bytes ∧ bytes.length + slowPathHeader ≤ c.maxUpdateSize

/-- What `build` makes of a shape, where a layout is found. -/
def Config.pictureOf (c : Config) (shape : CursorImage) : Option Picture :=
  match c.chooseLayout shape.width shape.height with
  | some layout => ((build shape layout 0).bind shapeOf).map pictured
  | none => some .default

/-! ### Layouts -/

theorem scaledSide_bounds (h : 0 < limit) (side longest : ℕ) :
    0 < scaledSide limit side longest ∧ scaledSide limit side longest ≤ limit := by
  unfold scaledSide
  omega

theorem fit_bounds (h : 0 < limit) (hwidth : 0 < width) (hheight : 0 < height) :
    (0 < (fit width height limit).1 ∧ (fit width height limit).1 ≤ limit) ∧
      0 < (fit width height limit).2 ∧ (fit width height limit).2 ≤ limit := by
  unfold fit
  split_ifs with hfits hwide
  · exact ⟨⟨hwidth, hfits.1⟩, hheight, hfits.2⟩
  · exact ⟨⟨h, le_rfl⟩, scaledSide_bounds h height width⟩
  · exact ⟨scaledSide_bounds h width height, h, le_rfl⟩

variable (k : Kind)

/-- The depth of a kind, its largest side and the bytes around its masks. -/
def Kind.bpp : ℕ := if k = .color then 24 else 32
def Kind.side : ℕ := if k = .large then Proto.Pointer.maxLargeSize else Proto.Pointer.maxSize
def Kind.overhead : Kind → ℕ
  | .color => 14 + 1
  | .new => 2 + 14 + 1
  | .large => 20 + 1

/-- A layout whose shape can be built and sent. -/
structure Layout.Good (l : Layout) (maxUpdateSize : ℕ) : Prop where
  width : 0 < l.width ∧ l.width ≤ l.kind.side
  height : 0 < l.height ∧ l.height ≤ l.kind.side
  size : updateSize l.kind.bpp l.kind.overhead l.width l.height + slowPathHeader ≤ maxUpdateSize

theorem Config.small_le (c : Config) : 0 < c.small ∧ c.small ≤ Proto.Pointer.maxSize := by
  unfold Config.small Proto.Pointer.maxSize
  omega

variable {c : Config}

theorem Config.layoutAt_good (h : 0 < limit) (hwidth : 0 < width) (hheight : 0 < height)
    (hlimit : limit ≤ if c.largePointers && !c.color then Proto.Pointer.maxLargeSize else c.small)
    (hsize : (c.layoutAt width height limit).2 + slowPathHeader ≤ c.maxUpdateSize) :
    (c.layoutAt width height limit).1.Good c.maxUpdateSize := by
  obtain ⟨⟨hw, hwl⟩, hh, hhl⟩ := fit_bounds h hwidth hheight
  have hsmall := c.small_le
  have hlarge : limit ≤ Proto.Pointer.maxLargeSize := by
    unfold Proto.Pointer.maxLargeSize Proto.Pointer.maxSize at *
    split_ifs at hlimit <;> omega
  unfold Config.layoutAt at hsize ⊢
  by_cases hcolor : c.color = true
  · have hlimit' : limit ≤ c.small := by simpa [hcolor] using hlimit
    simp only [hcolor] at hsize ⊢
    exact ⟨⟨hw, hwl.trans (hlimit'.trans hsmall.2)⟩, ⟨hh, hhl.trans (hlimit'.trans hsmall.2)⟩, hsize⟩
  · simp only [hcolor] at hsize ⊢
    by_cases hbig : c.small < (fit width height limit).1 ∨ c.small < (fit width height limit).2
    · rw [if_pos hbig] at hsize ⊢
      exact ⟨⟨hw, hwl.trans hlarge⟩, ⟨hh, hhl.trans hlarge⟩, hsize⟩
    · rw [if_neg hbig] at hsize ⊢
      push Not at hbig
      exact ⟨⟨hw, hbig.1.trans hsmall.2⟩, ⟨hh, hbig.2.trans hsmall.2⟩, hsize⟩

theorem Config.layoutBelow_good (hwidth : 0 < width) (hheight : 0 < height) :
    ∀ {limit : ℕ} {layout : Layout},
      (limit ≤ if c.largePointers && !c.color then Proto.Pointer.maxLargeSize else c.small) →
      c.layoutBelow width height limit = some layout → layout.Good c.maxUpdateSize
  | 0, _, _, h => by cases h
  | limit + 1, layout, hlimit, h => by
    rw [Config.layoutBelow] at h
    by_cases hsize : (c.layoutAt width height (limit + 1)).2 + slowPathHeader ≤ c.maxUpdateSize
    · rw [if_pos hsize] at h
      obtain rfl : _ = layout := Option.some.inj h
      exact layoutAt_good (succ_pos _) hwidth hheight hlimit hsize
    · rw [if_neg hsize] at h
      exact layoutBelow_good hwidth hheight ((le_succ _).trans hlimit) h

/-- A layout that is chosen fits, and there is a cache to put it into. -/
theorem Config.chooseLayout_good (hwidth : 0 < width) (hheight : 0 < height)
    (h : c.chooseLayout width height = some layout) : 0 < c.cacheSize ∧ layout.Good c.maxUpdateSize := by
  unfold Config.chooseLayout at h
  by_cases hnone : c.cacheSize = 0
  · rw [if_pos hnone] at h
    cases h
  · rw [if_neg hnone] at h
    exact ⟨Nat.pos_of_ne_zero hnone, layoutBelow_good hwidth hheight le_rfl h⟩

/-- What `normalize` gives. -/
structure Normal (image : CursorImage) : Prop where
  width : 0 < image.width
  height : 0 < image.height
  pixels : image.pixels.length = image.width * image.height * 4 % 2 ^ 64

theorem normalize_normal {image : CursorImage} (h : normalize image = some shape) : Normal shape := by
  unfold normalize at h
  split_ifs at h with hempty hpixels
  · cases h
    exact ⟨Nat.one_pos, Nat.one_pos, rfl⟩
  · cases h
    push Not at hempty hpixels
    exact ⟨Nat.pos_of_ne_zero hempty.1, Nat.pos_of_ne_zero hempty.2, hpixels⟩

theorem taps_length (source target : ℕ) : (taps source target).length = target := by
  simp [taps]

theorem Sums.pixel_length (sums : Sums) : sums.pixel.length = 4 := by
  unfold Sums.pixel
  split_ifs <;> rfl

theorem scale_length (source : CursorImage) (width height : ℕ) :
    (scale source width height).length = width * height * 4 := by
  have hrow : ∀ ys : List Tap, ((taps source.width width).flatMap fun xs =>
      (ys.foldl (fun (sums : Sums) ty => xs.foldl (fun (sums : Sums) tx => sums.add source ty tx) sums)
        {}).pixel).length =
      4 * width := by
    intro ys
    rw [Proto.Pointer.length_flatMap_const _ 4 _ fun _ _ => Sums.pixel_length _, taps_length]
  unfold scale
  rw [Proto.Pointer.length_flatMap_const _ (4 * width) _ fun ys _ => hrow ys, taps_length]
  ring

theorem Kind.side_le : k.side ≤ 384 := by
  cases k <;> decide

/-- The pixels a shape is built from. -/
theorem pixels_length {source : CursorImage} (hsource : Normal source)
    (h : layout.Good limit) :
    (if layout.width = source.width ∧ layout.height = source.height then source.pixels
      else scale source layout.width layout.height).length = layout.width * layout.height * 4 := by
  split_ifs with hnative
  · have hwidth := h.width.2.trans layout.kind.side_le
    have hheight := h.height.2.trans layout.kind.side_le
    have harea : layout.width * layout.height ≤ 384 * 384 := Nat.mul_le_mul hwidth hheight
    rw [hsource.pixels, ← hnative.1, ← hnative.2, mod_eq_of_lt (by omega)]
  · exact scale_length _ _ _

/-- A shape with masks of the right lengths is encoded. -/
theorem encodeFastpath_some {k : Kind} {shape : Shape} {bound : ℕ} (hbpp : shape.xorBpp = k.bpp)
    (hwidth : 0 < shape.width ∧ shape.width ≤ k.side) (hheight : 0 < shape.height ∧ shape.height ≤ k.side)
    (hxor : shape.xorMask.length = Proto.Pointer.xorStride shape.width shape.xorBpp * shape.height)
    (hand : shape.andMask.length = Proto.Pointer.andStride shape.width * shape.height)
    (hsize : updateSize k.bpp k.overhead shape.width shape.height + slowPathHeader ≤ bound) :
    ∃ bytes, Proto.Pointer.encodeFastpath (k.update shape) = some bytes ∧ bytes.length + slowPathHeader ≤ bound := by
  have hdepth : shape.xorBpp ∈ Proto.Pointer.validDepths := by
    rw [hbpp]
    cases k <;> decide
  have hvalid := Proto.Pointer.validate_ok hwidth hheight hdepth hxor hand
  have hmasks : Proto.Pointer.maskBytes shape =
      (Proto.Pointer.xorStride shape.width k.bpp + Proto.Pointer.andStride shape.width) * shape.height := by
    rw [Proto.Pointer.maskBytes, hxor, hand, hbpp, Nat.add_mul]
  have hsome : ∃ bytes, Proto.Pointer.encodeFastpath (k.update shape) = some bytes := by
    cases k with
    | color =>
      have h24 : shape.xorBpp = 24 := hbpp
      obtain ⟨bytes, hbytes⟩ := Proto.Pointer.encodeColorAttribute_some hvalid
      refine ⟨bytes, ?_⟩
      rw [Kind.update, Proto.Pointer.encodeFastpath, asserts, if_pos h24]
      exact hbytes
    | new =>
      obtain ⟨bytes, hbytes⟩ := Proto.Pointer.encodeColorAttribute_some hvalid
      exact ⟨_, map_eq_some_iff.mpr ⟨bytes, hbytes, rfl⟩⟩
    | large => exact Proto.Pointer.encodeLargeAttribute_some hvalid
  obtain ⟨bytes, hbytes⟩ := hsome
  have hlen : Proto.Pointer.fastpathSize (k.update shape) = updateSize k.bpp k.overhead shape.width shape.height := by
    unfold updateSize
    cases k <;> simp only [Kind.update, Proto.Pointer.fastpathSize, Kind.overhead] <;> omega
  refine ⟨bytes, hbytes, ?_⟩
  rw [Proto.Pointer.encodeFastpath_length hbytes, hlen]
  exact hsize

/-- **What a good layout builds**, at any cache index. -/
theorem build_some {source : CursorImage} {bound : ℕ} (hsource : Normal source)
    (h : layout.Good bound) : ∃ shape : Shape, ∀ cacheIndex,
      build source layout cacheIndex = some (layout.kind.update { shape with cacheIndex }) ∧
      ∃ bytes, Proto.Pointer.encodeFastpath (layout.kind.update { shape with cacheIndex }) = some bytes ∧
        bytes.length + slowPathHeader ≤ bound := by
  have hbpp : (if layout.kind = .color then 24 else 32) = layout.kind.bpp := rfl
  have hdepth : layout.kind.bpp = 24 ∨ layout.kind.bpp = 32 := by
    unfold Kind.bpp
    split_ifs
    · exact .inl rfl
    · exact .inr rfl
  obtain ⟨s, hs, hsbpp, hw, hh, hxor, hand⟩ := Proto.Pointer.shapeFromBgra_some hdepth
    ⟨h.width.1, h.height.1, pixels_length hsource h⟩
  refine ⟨{ s with
    hotspotX := scaleHotspot source.hotspotX source.width layout.width
    hotspotY := scaleHotspot source.hotspotY source.height layout.height }, fun cacheIndex => ⟨?_, ?_⟩⟩
  · unfold build
    dsimp only
    rw [hbpp, hs]
    rfl
  · apply encodeFastpath_some
    · exact hsbpp
    · exact hw ▸ h.width
    · exact hh ▸ h.height
    · simpa [hsbpp, hw, hh] using hxor
    · simpa [hw, hh] using hand
    · simpa [hw, hh] using h.size

/-! ### Kinds of updates -/

theorem Kind.shapeOf_update (shape : Shape) : shapeOf (k.update shape) = some shape := by
  cases k <;> rfl

theorem Kind.indexOf_update (shape : Shape) : indexOf (k.update shape) = some shape.cacheIndex := by
  cases k <;> rfl

theorem Kind.apply_update (shape : Shape) (c : Client) : c.apply (k.update shape) = c.store shape := by
  cases k <;> rfl

theorem fits_of_none {update : Update} (hindex : indexOf update = none) (hshape : shapeOf update = none) :
    Fits c update where
  index := fun i h => by rw [hindex] at h; cases h
  size := fun shape h => by rw [hshape] at h; cases h

theorem Config.cacheSize_lt (c : Config) : c.cacheSize < 65536 := by
  unfold Config.cacheSize
  split_ifs
  · exact c.pointerCacheSize.toNat_lt
  · exact c.colorPointerCacheSize.toNat_lt

theorem foldl_oldest_lt (slots : List Slot) {n : ℕ} : ∀ (l : List ℕ) (best : ℕ), best < n → (∀ i ∈ l, i < n) →
    l.foldl (fun best i => if (slots.getD i {}).lastUsed < (slots.getD best {}).lastUsed then i else best) best < n
  | [], _, hbest, _ => hbest
  | i :: l, best, hbest, hl => by
    apply foldl_oldest_lt slots l
    · dsimp only
      split_ifs
      · exact hl i mem_cons_self
      · exact hbest
    · exact fun j hj => hl j (mem_cons_of_mem _ hj)

theorem takeSlot_lt {slots : List Slot} (h : 0 < slots.length) : takeSlot slots < slots.length := by
  unfold takeSlot
  cases hfind : slots.findIdx? fun s => !s.used with
  | none => exact foldl_oldest_lt slots _ 0 h fun i hi => mem_range.mp hi
  | some i => exact (findIdx?_eq_some_iff_findIdx_eq.mp hfind).1

end Cursor

namespace CursorEncoder

/-! ### The mirror -/

variable (e : CursorEncoder)

/-- What the encoder believes about the client's pointer is so. -/
def Shows (c : Client) : Prop :=
  match e.shown with
  | .hidden => c.shows = .nothing
  | .systemDefault => c.shows = .default
  | .slot => ∃ slot, e.slots[e.shownSlot]? = some slot ∧ slot.used = true ∧
      e.config.pictureOf slot.image = some c.shows

/-- The mirror of the client's cache. -/
structure Inv (e : CursorEncoder) (c : Client) : Prop where
  slots : e.slots.length = e.config.cacheSize
  cache : c.cache.length = e.config.cacheSize
  held : ∀ (i : ℕ) slot, e.slots[i]? = some slot → slot.used = true →
    ∃ shape, c.cache[i]? = some (some shape) ∧ e.config.pictureOf slot.image = some (pictured shape)
  normal : ∀ image, e.shape = some image → Normal image
  shown : e.Shows c

/-- The client takes the updates, and the mirror knows about it. -/
structure Leads (e e' : CursorEncoder) (c c' : Client) (out : List Update) : Prop where
  applied : out.foldlM Client.apply c = some c'
  inv : Inv e' c'
  fits : ∀ u ∈ out, Fits e'.config u
  config : e'.config = e.config
  visible : e'.visible = e.visible
  shape : e'.shape = e.shape

section

variable {e : CursorEncoder} {c : Client}

theorem slotHolds_iff (h : e.slotHolds shape i = true) :
    ∃ slot, e.slots[i]? = some slot ∧ slot.used = true ∧ slot.image = shape := by
  unfold slotHolds at h
  split at h
  · rename_i slot hslot
    simp only [and_eq_true, beq_iff_eq] at h
    exact ⟨slot, hslot, h.1.1, h.2⟩
  · cases h

theorem getElem?_touch (i j : ℕ) : (e.touch i).slots[j]? =
    (e.slots[j]?).map fun slot => if i = j then { slot with lastUsed := e.nextTick } else slot := by
  unfold touch
  rw [getElem?_modify]
  split_ifs <;> simp

/-- A slot after the touch was a slot before, with the same image. -/
theorem of_getElem?_touch {j : ℕ} {slot : Slot} (h : (e.touch i).slots[j]? = some slot) :
    ∃ old, e.slots[j]? = some old ∧ old.used = slot.used ∧ old.image = slot.image := by
  rw [getElem?_touch] at h
  obtain ⟨old, hold, rfl⟩ := map_eq_some_iff.mp h
  exact ⟨old, hold, by split_ifs <;> rfl, by split_ifs <;> rfl⟩

theorem getElem?_touch_of {j : ℕ} {slot : Slot} (h : e.slots[j]? = some slot) :
    ∃ new, (e.touch i).slots[j]? = some new ∧ new.used = slot.used ∧ new.image = slot.image := by
  rw [getElem?_touch, h]
  exact ⟨_, rfl, by split_ifs <;> rfl, by split_ifs <;> rfl⟩

theorem Inv.held_touch (h : Inv e c) (i : ℕ) (j : ℕ) (slot : Slot) (hslot : (e.touch i).slots[j]? = some slot)
    (hused : slot.used = true) :
    ∃ shape, c.cache[j]? = some (some shape) ∧ e.config.pictureOf slot.image = some (pictured shape) := by
  obtain ⟨old, hold, hsame, himage⟩ := of_getElem?_touch hslot
  rw [← himage]
  exact h.held j old hold (hsame.trans hused)

/-- A slot that is shown again is only used again. -/
theorem Inv.leads_touch (h : Inv e c) {slot : Slot} (hshown : e.shown = .slot)
    (hslot : e.slots[e.shownSlot]? = some slot) (hused : slot.used = true)
    (hpicture : e.config.pictureOf slot.image = some c.shows) : Leads e (e.touch e.shownSlot) c c [] where
  applied := rfl
  inv := {
    slots := by simpa [touch] using h.slots
    cache := h.cache
    held := h.held_touch e.shownSlot
    normal := h.normal
    shown := by
      obtain ⟨new, hnew, hsame, himage⟩ := getElem?_touch_of (i := e.shownSlot) hslot
      have hshown' : (e.touch e.shownSlot).shown = .slot := hshown
      rw [Shows, hshown']
      exact ⟨new, hnew, hsame.trans hused, himage ▸ hpicture⟩ }
  fits := fun u hu => by cases hu
  config := rfl
  visible := rfl
  shape := rfl

theorem showSystem_leads (h : Inv e c) (target : Shown) (htarget : target ≠ .slot) :
    ∃ e' out c', e.showSystem target = some (e', out) ∧ Leads e e' c c' out ∧
      c'.shows = if target = .hidden then .nothing else .default := by
  rw [showSystem, asserts, if_pos htarget]
  by_cases hsame : e.shown = target
  · refine ⟨e, [], c, by simp [hsame], ⟨rfl, h, fun u hu => (by cases hu), rfl, rfl, rfl⟩, ?_⟩
    have hshown := h.shown
    rw [Shows, hsame] at hshown
    cases target with
    | slot => exact absurd rfl htarget
    | hidden | systemDefault => exact hshown
  · let shows : Picture := if target = .hidden then .nothing else .default
    refine ⟨{ e with shown := target }, [if target = .hidden then .hidden else .default], { c with shows }, ?_, ?_, rfl⟩
    · simp [hsame]
    · refine ⟨?_, ⟨h.slots, h.cache, h.held, h.normal, ?_⟩, ?_, rfl, rfl, rfl⟩
      · cases target with
        | slot => exact absurd rfl htarget
        | hidden | systemDefault => rfl
      · cases target with
        | slot => exact absurd rfl htarget
        | hidden | systemDefault => rfl
      · intro u hu
        rw [mem_singleton.mp hu]
        apply fits_of_none
        · split_ifs <;> rfl
        · split_ifs <;> rfl

/-- A shape that a slot holds is shown from there. -/
theorem cached_leads (h : Inv e c) (hi : i < e.slots.length)
    (hholds : e.slotHolds shape i = true) :
    ∃ c', Leads e { e.touch i with shown := .slot, shownSlot := i } c c' [.cached (i % 65536)] ∧
      e.config.pictureOf shape = some c'.shows := by
  obtain ⟨slot, hslot, hused, rfl⟩ := slotHolds_iff hholds
  obtain ⟨image, hcache, hpicture⟩ := h.held i slot hslot hused
  have hsize : i < e.config.cacheSize := h.slots ▸ hi
  have hmod : i % 65536 = i := mod_eq_of_lt (hsize.trans e.config.cacheSize_lt)
  obtain ⟨new, hnew, hsame, himage⟩ := getElem?_touch_of (i := i) hslot
  refine ⟨{ c with shows := pictured image }, ?_, hpicture⟩
  refine ⟨?_, ⟨?_, h.cache, h.held_touch i, h.normal, ?_⟩, ?_, rfl, rfl, rfl⟩
  · rw [hmod]
    simp [Client.apply, hcache]
  · simpa [touch] using h.slots
  · exact ⟨new, hnew, hsame.trans hused, himage ▸ hpicture⟩
  · intro u hu
    rw [mem_singleton.mp hu, hmod]
    refine ⟨fun j hj => ?_, fun s hs => by cases hs⟩
    obtain rfl : i = j := Option.some.inj hj
    exact hsize

/-- A shape that no slot holds is stored in one. -/
theorem cacheShape_leads (h : Inv e c) (hshape : Normal shape)
    (hlayout : e.config.chooseLayout shape.width shape.height = some layout) :
    ∃ e' out c', e.cacheShape shape layout = some (e', out) ∧ Leads e e' c c' out ∧
      e.config.pictureOf shape = some c'.shows := by
  obtain ⟨hroom, hgood⟩ := Config.chooseLayout_good hshape.width hshape.height hlayout
  obtain ⟨image, hbuild⟩ := build_some hshape hgood
  have htake : takeSlot e.slots < e.config.cacheSize := h.slots ▸ takeSlot_lt (h.slots ▸ hroom)
  have htake' : takeSlot e.slots < e.slots.length := h.slots ▸ htake
  have hcache : takeSlot e.slots < c.cache.length := h.cache ▸ htake
  have hmod : takeSlot e.slots % 65536 = takeSlot e.slots := mod_eq_of_lt (htake.trans e.config.cacheSize_lt)
  have hpicture : e.config.pictureOf shape = some (pictured image) := by
    rw [Config.pictureOf, hlayout]
    dsimp only
    rw [(hbuild 0).1, bind_some, Kind.shapeOf_update]
    rfl
  obtain ⟨hupdate, hbytes⟩ := hbuild (takeSlot e.slots)
  have hout : e.cacheShape shape layout = some ({ e with
      slots := e.slots.set (takeSlot e.slots) ⟨true, e.shapeHash, e.nextTick, shape⟩, tick := e.nextTick
      shown := .slot, shownSlot := takeSlot e.slots },
      [layout.kind.update { image with cacheIndex := takeSlot e.slots }]) := by
    rw [cacheShape, hmod, hupdate]
    rfl
  refine ⟨_, _, ⟨c.cache.set (takeSlot e.slots) (some { image with cacheIndex := takeSlot e.slots }), pictured image⟩,
    hout, ⟨?_, ⟨?_, ?_, ?_, h.normal, ?_⟩, ?_, rfl, rfl, rfl⟩, hpicture⟩
  · rw [foldlM_cons, Kind.apply_update, Client.store, if_pos hcache]
    rfl
  · simpa using h.slots
  · simpa using h.cache
  · intro i slot hslot hused
    by_cases hi : takeSlot e.slots = i
    · subst hi
      rw [getElem?_set_self htake'] at hslot
      cases hslot
      exact ⟨_, getElem?_set_self hcache, hpicture⟩
    · rw [getElem?_set_ne hi] at hslot ⊢
      exact h.held i slot hslot hused
  · exact ⟨_, getElem?_set_self htake', rfl, hpicture⟩
  · intro u hu
    rw [mem_singleton.mp hu]
    refine ⟨fun i hi => ?_, fun s _ => hbytes⟩
    rw [Kind.indexOf_update] at hi
    obtain rfl := Option.some.inj hi
    exact htake

/-- **The three ways to show a shape.** -/
theorem showShape_leads (h : Inv e c) (hshape : Normal shape) :
    ∃ e' out c', e.showShape shape = some (e', out) ∧ Leads e e' c c' out ∧
      e.config.pictureOf shape = some c'.shows := by
  unfold showShape
  by_cases hsame : e.shown = .slot ∧ e.slotHolds shape e.shownSlot = true
  · rw [if_pos hsame]
    obtain ⟨slot, hslot, hused, rfl⟩ := slotHolds_iff hsame.2
    have hshown := h.shown
    rw [Shows, hsame.1] at hshown
    obtain ⟨slot', hslot', -, hpicture⟩ := hshown
    obtain rfl : slot = slot' := Option.some.inj (hslot.symm.trans hslot')
    exact ⟨_, _, c, rfl, h.leads_touch hsame.1 hslot hused hpicture, hpicture⟩
  · rw [if_neg hsame]
    cases hfind : (List.range e.slots.length).find? (e.slotHolds shape) with
    | some i =>
      have hi : i < e.slots.length := mem_range.mp (mem_of_find?_eq_some hfind)
      obtain ⟨c', hleads, hpicture⟩ := cached_leads h hi (find?_some hfind)
      exact ⟨_, _, c', rfl, hleads, hpicture⟩
    | none =>
      cases hlayout : e.config.chooseLayout shape.width shape.height with
      | some layout => exact cacheShape_leads h hshape hlayout
      | none =>
        obtain ⟨e', out, c', hout, hleads, hshows⟩ := showSystem_leads h .systemDefault (by decide)
        refine ⟨e', out, c', hout, hleads, ?_⟩
        rw [Config.pictureOf, hlayout, hshows]
        rfl

end

/-! ### Runs -/

variable (config : Cursor.Config)

/-- What a client is to show under a configuration. -/
def pictureUnder (visible : Bool) (shape : Option CursorImage) : Option Picture :=
  if !visible then some .nothing
  else match shape with
    | some shape => config.pictureOf shape
    | none => some .default

/-- By what the encoder keeps. -/
def picture : Option Picture := pictureUnder e.config e.visible e.shape

inductive Call where
  | encode (update : CursorUpdate)
  | reset (config : Cursor.Config)
  | warp (x y : ℤ)
  | clientMoved (x y : ℤ)
  deriving DecidableEq

namespace Call

def newConfig : Call → Option Cursor.Config
  | .reset config => some config
  | _ => none

def visibility : Call → Option Bool
  | .encode update => some update.visible
  | _ => none

/-- The shape a call brings, normalized. -/
def newShape : Call → Option CursorImage
  | .encode update => update.shape.bind normalize
  | _ => none

end Call

variable (calls : List Call)

/-- The configuration of the last reset among the calls, or the first one. -/
def configAfter : Cursor.Config :=
  (calls.filterMap Call.newConfig).getLastD config

/-- What a client is to show after the calls: the last shape among them, if the
last update did not hide it, under the configuration in force. -/
def wanted : Option Picture :=
  pictureUnder (configAfter config calls) ((calls.filterMap Call.visibility).getLastD true)
    (calls.filterMap Call.newShape).getLast?

def call : Call → Option (CursorEncoder × List Update)
  | .encode update => e.encode update
  | .reset config => e.reset config
  | .warp x y => some ((e.warp x y).1, [(e.warp x y).2])
  | .clientMoved x y => some (e.clientMoved x y, [])

/-- What a call tells the encoder, before anything is sent. -/
def told : Call → CursorEncoder
  | .encode update => { update.shape.elim e e.takeShape with visible := update.visible }
  | .reset config => { e with
      config, slots := List.replicate config.cacheSize {}, tick := 0, shown := .systemDefault }
  | _ => e

/-- A reset comes with a fresh client. -/
def heard (c : Client) : Call → Client
  | .reset config => .fresh config
  | _ => c

/-- The encoder, its client, the configuration in force, and every update sent
with the configuration it was sent under. -/
structure Trace where
  encoder : CursorEncoder
  client : Client
  config : Cursor.Config
  sent : List (Cursor.Config × Update) := []
  deriving DecidableEq

def Trace.next (t : Trace) (call : Call) : Option Trace := do
  let (e, out) ← t.encoder.call call
  let c ← out.foldlM Client.apply (heard t.client call)
  let config := call.newConfig.getD t.config
  pure ⟨e, c, config, t.sent ++ out.map fun u => (config, u)⟩

def run : Option Trace :=
  calls.foldlM Trace.next ⟨{ config }, .fresh config, config, []⟩

section

variable {e e' : CursorEncoder} {c c' : Client} {out : List Update}

theorem Leads.picture (h : Leads e e' c c' out) : e'.picture = e.picture := by
  rw [CursorEncoder.picture, CursorEncoder.picture, h.visible, h.shape, h.config]

theorem Inv.withPosition (h : Inv e c) (position : Option (ℤ × ℤ)) : Inv { e with position } c :=
  ⟨h.slots, h.cache, h.held, h.normal, h.shown⟩

/-- Updates of the position change nothing that is drawn. -/
theorem Leads.moved (h : Leads e e' c c' out) (position : Option (ℤ × ℤ)) (moved : List Update)
    (hmoved : ∀ u ∈ moved, ∃ x y, u = .position x y) : Leads e { e' with position } c c' (out ++ moved) where
  applied := by
    have hstays : moved.foldlM Client.apply c' = some c' := by
      induction moved with
      | nil => rfl
      | cons u moved ih =>
        obtain ⟨x, y, rfl⟩ := hmoved u mem_cons_self
        exact ih fun v hv => hmoved v (mem_cons_of_mem _ hv)
    rw [foldlM_append, h.applied]
    exact hstays
  inv := h.inv.withPosition position
  fits := by
    intro u hu
    rcases mem_append.mp hu with hu | hu
    · exact h.fits u hu
    · obtain ⟨x, y, rfl⟩ := hmoved u hu
      exact fits_of_none rfl rfl
  config := h.config
  visible := h.visible
  shape := h.shape

theorem reportPosition_spec (e : CursorEncoder) (reported : Option (ℤ × ℤ)) :
    ∃ position, (e.reportPosition reported).1 = { e with position } ∧
      ∀ u ∈ (e.reportPosition reported).2, ∃ x y, u = .position x y := by
  cases reported with
  | none => exact ⟨e.position, rfl, fun u hu => by cases hu⟩
  | some at_ =>
    refine ⟨some at_, rfl, fun u hu => ?_⟩
    unfold reportPosition at hu
    dsimp only at hu
    split_ifs at hu with hwanted
    · exact ⟨_, _, mem_singleton.mp hu⟩
    · cases hu

theorem Inv.takeShape (h : Inv e c) (image : CursorImage) : Inv (e.takeShape image) c := by
  unfold CursorEncoder.takeShape
  cases hn : normalize image with
  | none => exact h
  | some shape =>
    refine ⟨h.slots, h.cache, h.held, fun s hs => ?_, h.shown⟩
    obtain rfl : shape = s := Option.some.inj hs
    exact normalize_normal hn

theorem showCurrent_leads (h : Inv e c) : ∃ e' out c', e.showCurrent = some (e', out) ∧ Leads e e' c c' out ∧
    e.picture = some c'.shows := by
  unfold showCurrent picture pictureUnder
  cases hvisible : e.visible with
  | false =>
    obtain ⟨e', out, c', hout, hleads, hshows⟩ := showSystem_leads h .hidden (by decide)
    exact ⟨e', out, c', hout, hleads, congrArg some hshows.symm⟩
  | true =>
    cases hshape : e.shape with
    | none =>
      obtain ⟨e', out, c', hout, hleads, hshows⟩ := showSystem_leads h .systemDefault (by decide)
      exact ⟨e', out, c', hout, hleads, congrArg some hshows.symm⟩
    | some shape => exact showShape_leads h (h.normal shape hshape)

/-- **`encode` keeps the mirror, and the client shows what it is to show.** -/
theorem encode_leads (h : Inv e c) (update : CursorUpdate) :
    ∃ e' out c', e.encode update = some (e', out) ∧ Leads (e.told (.encode update)) e' c c' out ∧
      e'.picture = some c'.shows := by
  have htaken : Inv (update.shape.elim e e.takeShape) c := by
    cases update.shape with
    | none => exact h
    | some image => exact h.takeShape image
  have hstart : Inv (e.told (.encode update)) c :=
    ⟨htaken.slots, htaken.cache, htaken.held, htaken.normal, htaken.shown⟩
  obtain ⟨e₁, out, c', hout, hleads, hpicture⟩ := showCurrent_leads hstart
  obtain ⟨position, heq, hmoved⟩ := reportPosition_spec e₁ update.position
  have hall := hleads.moved position _ hmoved
  rw [← heq] at hall
  refine ⟨_, _, c', ?_, hall, hall.picture.trans hpicture⟩
  rw [told] at hout
  rw [encode, hout]
  rfl

/-- A fresh client, and the mirror of it. -/
theorem inv_fresh (e : CursorEncoder) (config : Cursor.Config) (h : ∀ image, e.shape = some image → Normal image) :
    Inv (e.told (.reset config)) (.fresh config) where
  slots := length_replicate
  cache := length_replicate
  held := by
    intro i slot hslot hused
    obtain rfl : ({} : Slot) = slot := by
      rw [told, getElem?_replicate] at hslot
      split_ifs at hslot
      exact Option.some.inj hslot
    cases hused
  normal := h
  shown := rfl

/-- Nothing need be said to a fresh client that is to show its default pointer. -/
theorem showAgain_leads (h : Inv e c) (hshown : e.shown = .systemDefault) :
    ∃ e' out c', e.showAgain = some (e', out) ∧ Leads e e' c c' out ∧ e.picture = some c'.shows := by
  have hcurrent := showCurrent_leads h
  unfold showCurrent at hcurrent
  unfold showAgain
  cases hvisible : e.visible with
  | false => simpa [hvisible] using hcurrent
  | true =>
    cases hshape : e.shape with
    | some shape => simpa [hvisible, hshape] using hcurrent
    | none =>
      have hdefault := h.shown
      rw [Shows, hshown] at hdefault
      refine ⟨e, [], c, rfl, ⟨rfl, h, fun u hu => (by cases hu), rfl, rfl, rfl⟩, ?_⟩
      simp only [picture, pictureUnder, hvisible, hshape, hdefault]
      rfl

theorem reset_leads (h : Inv e c) (config : Cursor.Config) :
    ∃ e' out c', e.reset config = some (e', out) ∧ Leads (e.told (.reset config)) e' (.fresh config) c' out ∧
      e'.picture = some c'.shows := by
  obtain ⟨e₁, out, c', hout, hleads, hpicture⟩ := showAgain_leads (inv_fresh e config h.normal) rfl
  have hmoved : ∀ u ∈ (match e₁.position with
      | some (x, y) => if config.sendPositions then [Update.position (toU16 x) (toU16 y)] else []
      | none => []), ∃ x y, u = .position x y := by
    intro u hu
    split at hu
    · split_ifs at hu
      · exact ⟨_, _, mem_singleton.mp hu⟩
      · cases hu
    · cases hu
  have hall := hleads.moved e₁.position _ hmoved
  refine ⟨_, _, c', ?_, hall, hall.picture.trans hpicture⟩
  rw [told] at hout
  rw [reset, hout]
  rfl

/-- **Every call leaves the client with the picture.** -/
theorem call_leads (h : Inv e c) (hpicture : e.picture = some c.shows) (call : Call) :
    ∃ e' out c', e.call call = some (e', out) ∧ Leads (e.told call) e' (heard c call) c' out ∧
      e'.picture = some c'.shows := by
  have hnothing : Leads e e c c [] := ⟨rfl, h, fun u hu => (by cases hu), rfl, rfl, rfl⟩
  cases call with
  | encode update => exact encode_leads h update
  | reset config => exact reset_leads h config
  | warp x y =>
    have hmoved := hnothing.moved (some (x, y)) [(e.warp x y).2] fun u hu => ⟨_, _, mem_singleton.mp hu⟩
    exact ⟨_, _, c, rfl, hmoved, hpicture⟩
  | clientMoved x y =>
    have hmoved := hnothing.moved (some (x, y)) [] fun u hu => by cases hu
    exact ⟨_, _, c, rfl, hmoved, hpicture⟩

end

/-! ### What the encoder keeps is what it was told -/

theorem told_config (call : Call) : (e.told call).config = call.newConfig.getD e.config := by
  cases call with
  | encode update =>
    obtain ⟨shape, position, visible⟩ := update
    cases shape with
    | none => rfl
    | some image =>
      change (e.takeShape image).config = e.config
      unfold takeShape
      split <;> rfl
  | reset config => rfl
  | warp x y => rfl
  | clientMoved x y => rfl

theorem told_visible (call : Call) : (e.told call).visible = call.visibility.getD e.visible := by
  cases call <;> rfl

/-- A shape whose pixels do not match its size leaves the one before. -/
theorem told_shape (call : Call) : (e.told call).shape = call.newShape.or e.shape := by
  cases call with
  | encode update =>
    obtain ⟨shape, position, visible⟩ := update
    cases shape with
    | none => rfl
    | some image =>
      change (e.takeShape image).shape = (normalize image).or e.shape
      unfold takeShape
      cases normalize image <;> rfl
  | reset config => rfl
  | warp x y => rfl
  | clientMoved x y => rfl

theorem filterMap_getLastD {α : Type*} (f : Call → Option α) (calls : List Call) (call : Call) (first : α) :
    ((calls ++ [call]).filterMap f).getLastD first = (f call).getD ((calls.filterMap f).getLastD first) := by
  rw [filterMap_append]
  cases h : f call with
  | none => simp [h]
  | some a => simp [h, getLastD_eq_getLast?]

theorem filterMap_getLast? {α : Type*} (f : Call → Option α) (calls : List Call) (call : Call) :
    ((calls ++ [call]).filterMap f).getLast? = (f call).or (calls.filterMap f).getLast? := by
  rw [filterMap_append]
  cases h : f call with
  | none => simp [h]
  | some a => simp [h]

/-- After the calls, the encoder has what the last of them said, and the updates
were sent under the configurations in force. -/
structure Follows (config : Cursor.Config) (calls : List Call) (t : Trace) : Prop where
  inForce : t.config = configAfter config calls
  config : t.encoder.config = configAfter config calls
  visible : t.encoder.visible = (calls.filterMap Call.visibility).getLastD true
  shape : t.encoder.shape = (calls.filterMap Call.newShape).getLast?

theorem run_inv : ∃ t, run config calls = some t ∧
    Inv t.encoder t.client ∧ Follows config calls t ∧ t.encoder.picture = some t.client.shows ∧
      ∀ p ∈ t.sent, Fits p.1 p.2 := by
  induction calls using List.reverseRecOn with
  | nil =>
    exact ⟨_, rfl, inv_fresh { config } config fun image h => (by cases h), ⟨rfl, rfl, rfl, rfl⟩, rfl,
      fun p hp => (by cases hp)⟩
  | append_singleton calls call ih =>
    obtain ⟨t, ht, hinv, hfollows, hpicture, hfits⟩ := ih
    obtain ⟨e', out, c', hout, hleads, hshows⟩ := call_leads hinv hpicture call
    have hconfig : e'.config = call.newConfig.getD t.config := by
      rw [hleads.config, told_config, hfollows.config, hfollows.inForce]
    have hafter : call.newConfig.getD t.config = configAfter config (calls ++ [call]) := by
      rw [configAfter, filterMap_getLastD, hfollows.inForce, configAfter]
    have hnext : t.next call =
        some ⟨e', c', call.newConfig.getD t.config, t.sent ++ out.map fun u => (call.newConfig.getD t.config, u)⟩ := by
      rw [Trace.next, hout]
      change (out.foldlM Client.apply (heard t.client call)).bind _ = _
      rw [hleads.applied]
      rfl
    refine ⟨⟨e', c', call.newConfig.getD t.config, t.sent ++ out.map fun u => (call.newConfig.getD t.config, u)⟩,
      ?_, hleads.inv, ⟨hafter, hconfig.trans hafter, ?_, ?_⟩, hshows, fun p hp => ?_⟩
    · rw [run, foldlM_append]
      change (run config calls).bind _ = _
      rw [ht, bind_some, foldlM_cons, hnext]
      rfl
    · rw [filterMap_getLastD, ← hfollows.visible]
      exact hleads.visible.trans (told_visible _ call)
    · rw [filterMap_getLast?, ← hfollows.shape]
      exact hleads.shape.trans (told_shape _ call)
    · rcases mem_append.mp hp with hp | hp
      · exact hfits p hp
      · obtain ⟨u, hu, rfl⟩ := mem_map.mp hp
        exact hconfig ▸ hleads.fits u hu

/-- **Cursor cache coherence.** After any calls the client shows what the calls
ask for, and every update that was sent fits the configuration in force. -/
theorem run_coherent : ∃ t, run config calls = some t ∧
    wanted config calls = some t.client.shows ∧ ∀ p ∈ t.sent, Fits p.1 p.2 := by
  obtain ⟨t, ht, -, hfollows, hpicture, hfits⟩ := run_inv config calls
  refine ⟨t, ht, ?_, hfits⟩
  rw [wanted, ← hfollows.config, ← hfollows.visible, ← hfollows.shape]
  exact hpicture

/-- **The mirror is never wrong**: after any calls the client's cache has the
picture of every slot in use, at its index. -/
theorem run_mirrored : ∃ t, run config calls = some t ∧
    t.encoder.slots.length = t.client.cache.length ∧ ∀ (i : ℕ) slot, t.encoder.slots[i]? = some slot → slot.used = true →
      ∃ shape, t.client.cache[i]? = some (some shape) ∧
        t.encoder.config.pictureOf slot.image = some (pictured shape) := by
  obtain ⟨t, ht, hinv, -⟩ := run_inv config calls
  exact ⟨t, ht, hinv.slots.trans hinv.cache.symm, hinv.held⟩

end CursorEncoder
end Server
end Farland
