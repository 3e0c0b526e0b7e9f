/-
# The frame encoder

`FrameEncoder` of `server/frame_encoder.cpp`: desktop frames become bitmap
updates. A frame is cut into tiles; those that changed since the last frame, or
were invalidated, are encoded and packed into updates of a limited size.
`none` is a failed assertion. The checks of the constructor are the fields of
`Setup`, so that an encoder for an impossible desktop cannot be built.

Key theorems: `tileChanged_eq_false`, `rememberTile_spec`, **`collect_spec`**.
-/
import Farland.Codec.Planar.RoundTrip
import Farland.Proto.Bitmap

namespace Farland
namespace Server

open List

open Codec.Clear (ImageView)
open Codec Proto.Bitmap

inductive BitmapCodec where
  | planar
  | uncompressed
  deriving DecidableEq

/-- Inclusive bounds. -/
structure Rectangle16 where
  left : ℕ
  top : ℕ
  right : ℕ
  bottom : ℕ
  deriving DecidableEq

def tileSize : ℕ := 64
def bytesPerSourcePixel : ℕ := 4
def updateHeaderSize : ℕ := 4

/-- The arguments of the constructor, and what it asserts of them. -/
structure Setup where
  width : ℕ
  height : ℕ
  bpp : ℕ
  codec : BitmapCodec
  omitHeader : Bool
  size : 0 < width ∧ 0 < height ∧ width ≤ 0xFFFF ∧ height ≤ 0xFFFF
  depth : bpp = 32 ∨ bpp = 24 ∨ bpp = 16
  planar : codec = .planar → bpp = 32
  deriving DecidableEq

namespace Setup

variable (s : Setup)

def tilesX : ℕ := (s.width + tileSize - 1) / tileSize
def tilesY : ℕ := (s.height + tileSize - 1) / tileSize

/-- What is visible of a tile. -/
def visibleWidth (tx : ℕ) : ℕ := min tileSize (s.width - tx * tileSize)
def tileHeight (ty : ℕ) : ℕ := min tileSize (s.height - ty * tileSize)

/-- Widths stay a multiple of four. -/
def paddedWidth (tx : ℕ) : ℕ := (s.visibleWidth tx + 3) / 4 * 4

/-- Every tile, row by row. -/
def tiles : List (ℕ × ℕ) :=
  (List.range s.tilesY).flatMap fun ty => (List.range s.tilesX).map fun tx => (tx, ty)

end Setup

structure FrameEncoder where
  setup : Setup
  /-- The last frame sent, tightly packed. -/
  previous : List UInt8
  dirty : List Bool
  deriving DecidableEq

structure EncodedTile where
  x : ℕ
  y : ℕ
  visibleWidth : ℕ
  height : ℕ
  paddedWidth : ℕ
  data : List UInt8
  deriving DecidableEq

/-! ### Tiles -/

def sourceRow (image : ImageView) (y x pixels : ℕ) : List UInt8 :=
  (image.data.drop (y * image.stride + x * bytesPerSourcePixel)).take (pixels * bytesPerSourcePixel)

/-- The rows of a tile, the last visible column repeated into the padding. -/
def copyTile (frame : ImageView) (x y visibleWidth height paddedWidth : ℕ) : List UInt8 :=
  (List.range height).flatMap fun row =>
    let src := sourceRow frame (y + row) x visibleWidth
    src ++ (List.replicate (paddedWidth - visibleWidth) (src.drop (src.length - bytesPerSourcePixel))).flatten

/-- RGB565. -/
def rgb565 (b g r : UInt8) : List UInt8 :=
  Writer.u16le ((r.toNat >>> 3) <<< 11 ||| (g.toNat >>> 2) <<< 5 ||| b.toNat >>> 3)

def pixelBytes (bpp : ℕ) (b g r : UInt8) : List UInt8 :=
  if bpp = 32 then [b, g, r, 0xFF] else if bpp = 24 then [b, g, r] else rgb565 b g r

/-- The pixels of a row in the colour depth. -/
def uncompressedPixels (tile : List UInt8) (width bpp row : ℕ) : List UInt8 :=
  (List.range width).flatMap fun col =>
    let at_ := row * (width * bytesPerSourcePixel) + col * bytesPerSourcePixel
    pixelBytes bpp (tile.getD at_ 0) (tile.getD (at_ + 1) 0) (tile.getD (at_ + 2) 0)

def rowBytes (width bpp : ℕ) : ℕ := (width * (bpp / 8) + 3) / 4 * 4

/-- Bottom-up rows padded to four bytes. -/
def uncompressed (tile : List UInt8) (width height bpp : ℕ) : List UInt8 :=
  (List.range height).flatMap fun i =>
    let pixels := uncompressedPixels tile width bpp (height - 1 - i)
    pixels ++ Writer.zeros (rowBytes width bpp - pixels.length)

namespace FrameEncoder

variable (setup : Setup)

/-- The constructor. -/
def new : FrameEncoder where
  setup := setup
  previous := List.replicate (setup.width * setup.height * bytesPerSourcePixel) 0
  dirty := List.replicate (setup.tilesX * setup.tilesY) true

variable (s : FrameEncoder)

def invalidateAll : FrameEncoder := { s with dirty := s.dirty.map fun _ => true }

/-- The tiles that cover an area. -/
def covered (area : Rectangle16) (tx ty : ℕ) : Bool :=
  min (area.left / tileSize) setup.tilesX ≤ tx && tx < min (area.right / tileSize + 1) setup.tilesX &&
    (min (area.top / tileSize) setup.tilesY ≤ ty && ty < min (area.bottom / tileSize + 1) setup.tilesY)

def markDirty (dirty : List Bool) : List (ℕ × ℕ) → List Bool
  | [] => dirty
  | (tx, ty) :: tiles => markDirty (dirty.set (ty * setup.tilesX + tx) true) tiles

def invalidate (area : Rectangle16) : FrameEncoder :=
  if area.right < area.left ∨ area.bottom < area.top then s
  else
    { s with dirty := markDirty s.setup s.dirty (s.setup.tiles.filter fun (tx, ty) => covered s.setup area tx ty) }

variable (frame : ImageView)

/-- Whether a row of a tile differs from the last frame. -/
def rowChanged (tx ty row : ℕ) : Bool :=
  let now := sourceRow frame (ty * tileSize + row) (tx * tileSize) (s.setup.visibleWidth tx)
  let before := (s.previous.drop ((ty * tileSize + row) * (s.setup.width * bytesPerSourcePixel) +
    tx * tileSize * bytesPerSourcePixel)).take now.length
  now != before

def tileChanged (tx ty : ℕ) : Bool :=
  (List.range (s.setup.tileHeight ty)).any fun row => s.rowChanged frame tx ty row

def rememberTile (tx ty : ℕ) : FrameEncoder :=
  { s with
    previous := Rows.overwriteRows (s.setup.width * bytesPerSourcePixel) (tx * tileSize * bytesPerSourcePixel)
      (fun y => sourceRow frame y (tx * tileSize) (s.setup.visibleWidth tx)) (ty * tileSize) (s.setup.tileHeight ty)
      s.previous }

/-- The data of a tile. -/
def tileData (tx ty : ℕ) : Option (List UInt8) :=
  let pixels := copyTile frame (tx * tileSize) (ty * tileSize) (setup.visibleWidth tx) (setup.tileHeight ty)
    (setup.paddedWidth tx)
  match setup.codec with
  | .planar =>
    Planar.encode ⟨pixels, setup.paddedWidth tx, setup.tileHeight ty, setup.paddedWidth tx * bytesPerSourcePixel⟩
      .automatic .bottomUp
  | .uncompressed => some (uncompressed pixels (setup.paddedWidth tx) (setup.tileHeight ty) setup.bpp)

def encodeTile (tx ty : ℕ) : Option EncodedTile := do
  let data ← tileData setup frame tx ty
  pure {
    x := tx * tileSize
    y := ty * tileSize
    visibleWidth := setup.visibleWidth tx
    height := setup.tileHeight ty
    paddedWidth := setup.paddedWidth tx
    data }

/-- Whether a tile is sent. -/
def sends (tx ty : ℕ) : Bool :=
  s.dirty.getD (ty * s.setup.tilesX + tx) false || s.tileChanged frame tx ty

/-- The tiles to send, each remembered. -/
def collect : List (ℕ × ℕ) → FrameEncoder → Option (List EncodedTile × FrameEncoder)
  | [], s => some ([], s)
  | (tx, ty) :: rest, s =>
    if s.sends frame tx ty = false then collect rest s
    else do
      let tile ← encodeTile s.setup frame tx ty
      let (tiles, s) ← collect rest
        { s.rememberTile frame tx ty with dirty := s.dirty.set (ty * s.setup.tilesX + tx) false }
      pure (tile :: tiles, s)

/-! ### Updates -/

def updateFlags : ℕ :=
  match setup.codec with
  | .planar => BitmapFlags.compression ||| if setup.omitHeader then BitmapFlags.noBitmapCompressionHdr else 0
  | .uncompressed => 0

/-- The casts to 16 bits. -/
def rectOf (tile : EncodedTile) : BitmapData where
  destLeft := tile.x % 2 ^ 16
  destTop := tile.y % 2 ^ 16
  destRight := (tile.x + tile.visibleWidth - 1) % 2 ^ 16
  destBottom := (tile.y + tile.height - 1) % 2 ^ 16
  width := tile.paddedWidth % 2 ^ 16
  height := tile.height % 2 ^ 16
  bitsPerPixel := setup.bpp
  flags := updateFlags setup
  data := tile.data

/-- The updates made and the rectangles of the next one. -/
structure Batch where
  updates : List (List UInt8) := []
  rects : List BitmapData := []
  size : ℕ := updateHeaderSize
  deriving DecidableEq

def Batch.flush (b : Batch) : Option Batch :=
  if b.rects = [] then some b
  else do
    let update ← encodeBitmapUpdate b.rects
    pure { updates := b.updates ++ [update], rects := [], size := updateHeaderSize }

def Batch.flushIf (b : Batch) (full : Prop) [Decidable full] : Option Batch := if full then b.flush else some b

def Batch.add (b : Batch) (rect : BitmapData) (maxUpdateSize : ℕ) : Option Batch := do
  let b ← b.flushIf (maxUpdateSize < b.size + rect.encodedSize)
  asserts (updateHeaderSize + rect.encodedSize ≤ maxUpdateSize)
  pure { b with rects := b.rects ++ [rect], size := b.size + rect.encodedSize }

def pack (maxUpdateSize : ℕ) : List BitmapData → Batch → Option (List (List UInt8))
  | [], b => b.flush.map Batch.updates
  | rect :: rects, b => do
    let b ← b.add rect maxUpdateSize
    pack maxUpdateSize rects b

def encode (maxUpdateSize : ℕ) : Option (List (List UInt8) × FrameEncoder) := do
  asserts (frame.width = s.setup.width ∧ frame.height = s.setup.height)
  let (tiles, s) ← collect frame s.setup.tiles s
  let updates ← pack maxUpdateSize (tiles.map (rectOf s.setup)) {}
  pure (updates, s)

/-! ### Where tiles are -/

section

variable {setup : Setup} {frame : ImageView} {tx ty x y c : ℕ}

theorem tilesX_spec (setup : Setup) : tx < setup.tilesX ↔ tx * tileSize < setup.width := by
  unfold Setup.tilesX tileSize
  omega

theorem tilesY_spec (setup : Setup) : ty < setup.tilesY ↔ ty * tileSize < setup.height := by
  unfold Setup.tilesY tileSize
  omega

theorem visibleWidth_spec (setup : Setup) (tx : ℕ) : tx * tileSize + setup.visibleWidth tx ≤ max setup.width
    (tx * tileSize) ∧
    setup.visibleWidth tx ≤ tileSize := by
  unfold Setup.visibleWidth
  omega

theorem mem_column (hx : x < setup.width) :
    x / tileSize = tx ↔ tx * tileSize ≤ x ∧ x < tx * tileSize + setup.visibleWidth tx := by
  unfold Setup.visibleWidth tileSize
  omega

theorem mem_row (hy : y < setup.height) :
    y / tileSize = ty ↔ ty * tileSize ≤ y ∧ y < ty * tileSize + setup.tileHeight ty := by
  unfold Setup.tileHeight tileSize
  omega

/-- A tile of the desktop. -/
def IsTile (setup : Setup) (t : ℕ × ℕ) : Prop := t.1 < setup.tilesX ∧ t.2 < setup.tilesY

theorem mem_tiles (t : ℕ × ℕ) : t ∈ setup.tiles ↔ IsTile setup t := by
  obtain ⟨tx, ty⟩ := t
  simp [Setup.tiles, IsTile, and_comm]

theorem isTile_of_pixel (hx : x < setup.width) (hy : y < setup.height) : IsTile setup (x / tileSize, y / tileSize) := by
  refine ⟨(tilesX_spec setup).mpr ?_, (tilesY_spec setup).mpr ?_⟩
  all_goals
    unfold tileSize
    omega

theorem tiles_nodup (setup : Setup) : setup.tiles.Nodup := by
  unfold Setup.tiles
  rw [nodup_flatMap]
  refine ⟨fun ty _ => nodup_range.map fun a b h => congrArg Prod.fst h, ?_⟩
  refine nodup_range.imp_of_mem fun {a b} _ _ hne => ?_
  intro t ha hb
  obtain ⟨_, -, rfl⟩ := mem_map.mp ha
  obtain ⟨_, -, h⟩ := mem_map.mp hb
  exact hne (congrArg Prod.snd h).symm

/-! ### Frames -/

/-- A frame of the desktop's size whose view holds its rows. -/
structure Fitting (setup : Setup) (frame : ImageView) : Prop where
  width : frame.width = setup.width
  height : frame.height = setup.height
  stride : setup.width * bytesPerSourcePixel ≤ frame.stride
  data : (setup.height - 1) * frame.stride + setup.width * bytesPerSourcePixel ≤ frame.data.length

/-- A piece of a row, byte by byte. -/
theorem sourceRow_eq (hf : Fitting setup frame) {pixels : ℕ} (hy : y < setup.height) (hx : x + pixels ≤ setup.width) :
    sourceRow frame y x pixels = (List.range (pixels * bytesPerSourcePixel)).map fun i =>
      frame.data.getD (y * frame.stride + x * bytesPerSourcePixel + i) 0 := by
  refine Rows.take_drop_eq_map frame.data 0 ?_
  have hrow : y * frame.stride ≤ (setup.height - 1) * frame.stride := Nat.mul_le_mul_right _ (by omega)
  have hdata := hf.data
  unfold bytesPerSourcePixel at hdata ⊢
  omega

theorem sourceRow_length (hf : Fitting setup frame) {pixels : ℕ} (hy : y < setup.height)
    (hx : x + pixels ≤ setup.width) :
    (sourceRow frame y x pixels).length = pixels * bytesPerSourcePixel := by
  rw [sourceRow_eq hf hy hx, length_map, length_range]

/-- The byte of a row. -/
theorem sourceRow_getD (hf : Fitting setup frame) {pixels i : ℕ} (hy : y < setup.height) (hx : x + pixels ≤ setup.width)
    (hi : i < pixels * bytesPerSourcePixel) : (sourceRow frame y x pixels).getD i 0 =
      frame.data.getD (y * frame.stride + x * bytesPerSourcePixel + i) 0 := by
  rw [sourceRow_eq hf hy hx, Rows.getD_map_range hi]

/-! ### The remembered frame -/

/-- The sizes of what an encoder keeps. -/
structure Sized (s : FrameEncoder) : Prop where
  previous : s.previous.length = s.setup.height * (s.setup.width * bytesPerSourcePixel)
  dirty : s.dirty.length = s.setup.tilesY * s.setup.tilesX

/-- A byte of the last frame sent. -/
def remembered (s : FrameEncoder) (x y c : ℕ) : UInt8 :=
  s.previous.getD (y * (s.setup.width * bytesPerSourcePixel) + (x * bytesPerSourcePixel + c)) 0

/-- The encoder's last frame is this one, in a tile. -/
def Remembers (s : FrameEncoder) (frame : ImageView) (t : ℕ × ℕ) : Prop :=
  ∀ x y c, x < s.setup.width → y < s.setup.height → c < bytesPerSourcePixel → x / tileSize = t.1 → y / tileSize = t.2 →
    remembered s x y c = Planar.sample frame x y c

variable {s : FrameEncoder}

theorem pixel_of_offset {i : ℕ} (hi : i < s.setup.visibleWidth tx * bytesPerSourcePixel) :
    tx * tileSize + i / 4 < s.setup.width ∧ (tx * tileSize + i / 4) / tileSize = tx := by
  unfold Setup.visibleWidth tileSize bytesPerSourcePixel at *
  omega

/-- **A tile did not change** when the last frame shows it. -/
theorem tileChanged_eq_false (hs : Sized s) (hf : Fitting s.setup frame) (ht : IsTile s.setup (tx, ty)) :
    s.tileChanged frame tx ty = false ↔ Remembers s frame (tx, ty) := by
  obtain ⟨htx, hty⟩ := ht
  dsimp only at htx hty
  have hx := (tilesX_spec s.setup).mp htx
  have hvisible := visibleWidth_spec s.setup tx
  have hright : tx * tileSize + s.setup.visibleWidth tx ≤ s.setup.width := by omega
  have hrow : ∀ row, row < s.setup.tileHeight ty → (s.rowChanged frame tx ty row = false ↔
      ∀ i < s.setup.visibleWidth tx * bytesPerSourcePixel,
        frame.data.getD ((ty * tileSize + row) * frame.stride + tx * tileSize * bytesPerSourcePixel + i) 0 =
          s.previous.getD ((ty * tileSize + row) * (s.setup.width * bytesPerSourcePixel) +
            tx * tileSize * bytesPerSourcePixel + i) 0) := by
    intro row hrow
    have hin : ty * tileSize + row < s.setup.height := by
      unfold Setup.tileHeight at hrow
      omega
    have hfits : (ty * tileSize + row) * (s.setup.width * bytesPerSourcePixel) + tx * tileSize * bytesPerSourcePixel +
        s.setup.visibleWidth tx * bytesPerSourcePixel ≤ s.previous.length := by
      rw [hs.previous]
      calc _ ≤ (ty * tileSize + row) * (s.setup.width * bytesPerSourcePixel) + s.setup.width * bytesPerSourcePixel := by
            unfold bytesPerSourcePixel at *
            omega
        _ = (ty * tileSize + row + 1) * (s.setup.width * bytesPerSourcePixel) := (Nat.succ_mul _ _).symm
        _ ≤ _ := Nat.mul_le_mul_right _ hin
    unfold rowChanged
    rw [bne_eq_false_iff_eq, sourceRow_length hf hin hright, sourceRow_eq hf hin hright,
      Rows.take_drop_eq_map s.previous 0 hfits]
    exact map_inj_left.trans (by simp only [mem_range])
  unfold tileChanged
  rw [any_eq_false]
  simp only [mem_range, Bool.not_eq_true]
  constructor
  · intro h x y c hxw hyh hc htile hline
    dsimp only at htile hline
    obtain ⟨hx0, hx1⟩ := (mem_column hxw).mp htile
    obtain ⟨hy0, hy1⟩ := (mem_row hyh).mp hline
    have hbyte := (hrow (y - ty * tileSize) (by omega)).mp (h _ (by omega)) ((x - tx * tileSize) * 4 + c)
      (by unfold bytesPerSourcePixel at *; omega)
    unfold remembered Planar.sample
    rw [Nat.add_sub_cancel' hy0] at hbyte
    have hoff : tx * tileSize * bytesPerSourcePixel + ((x - tx * tileSize) * 4 + c) = x * bytesPerSourcePixel + c := by
      unfold bytesPerSourcePixel
      omega
    rw [Nat.add_assoc, Nat.add_assoc, hoff] at hbyte
    rw [← hbyte, ← Nat.add_assoc]
    rfl
  · intro h row hlt
    refine (hrow row hlt).mpr fun i hi => ?_
    obtain ⟨hxw, htile⟩ := pixel_of_offset hi
    have hin : ty * tileSize + row < s.setup.height := by
      unfold Setup.tileHeight at hlt
      omega
    have hline : (ty * tileSize + row) / tileSize = ty := by
      unfold Setup.tileHeight tileSize at *
      omega
    have hbyte := h (tx * tileSize + i / 4) (ty * tileSize + row) (i % 4) hxw hin (Nat.mod_lt _ (by decide)) htile hline
    unfold remembered Planar.sample at hbyte
    have hoff : (tx * tileSize + i / 4) * bytesPerSourcePixel + i % 4 = tx * tileSize * bytesPerSourcePixel + i := by
      unfold bytesPerSourcePixel
      omega
    have hoff' : (ty * tileSize + row) * frame.stride + (tx * tileSize + i / 4) * Planar.bytesPerPixel + i % 4 =
        (ty * tileSize + row) * frame.stride + tx * tileSize * bytesPerSourcePixel + i := by
      unfold bytesPerSourcePixel Planar.bytesPerPixel
      omega
    rw [hoff, hoff', ← Nat.add_assoc] at hbyte
    exact hbyte.symm

/-- **A remembered tile is the frame's**, and the others stay. -/
theorem rememberTile_spec (hs : Sized s) (hf : Fitting s.setup frame) (ht : IsTile s.setup (tx, ty)) :
    Sized (s.rememberTile frame tx ty) ∧ ∀ x y c, x < s.setup.width → y < s.setup.height → c < bytesPerSourcePixel →
      remembered (s.rememberTile frame tx ty) x y c =
        if x / tileSize = tx ∧ y / tileSize = ty then Planar.sample frame x y c else remembered s x y c := by
  obtain ⟨htx, hty⟩ := ht
  dsimp only at htx hty
  have hx := (tilesX_spec s.setup).mp htx
  have hy := (tilesY_spec s.setup).mp hty
  have hvisible := visibleWidth_spec s.setup tx
  have hright : tx * tileSize + s.setup.visibleWidth tx ≤ s.setup.width := by omega
  have hleft : tx * tileSize * bytesPerSourcePixel + s.setup.visibleWidth tx * bytesPerSourcePixel ≤
      s.setup.width * bytesPerSourcePixel := by
    unfold bytesPerSourcePixel
    omega
  have hbottom : ty * tileSize + s.setup.tileHeight ty ≤ s.setup.height := by
    unfold Setup.tileHeight
    omega
  have hrow : ∀ y < s.setup.height, (sourceRow frame y (tx * tileSize) (s.setup.visibleWidth tx)).length =
      s.setup.visibleWidth tx * bytesPerSourcePixel := fun y hy => sourceRow_length hf hy hright
  refine ⟨⟨Rows.overwriteRows_length hleft hrow _ _ _ hs.previous hbottom, hs.dirty⟩, fun x y c hxw hyh hc => ?_⟩
  have hbyte : x * bytesPerSourcePixel + c < s.setup.width * bytesPerSourcePixel := by
    unfold bytesPerSourcePixel at *
    omega
  have hwritten := Rows.getD_overwriteRows hleft hrow 0 _ (ty * tileSize) s.previous hs.previous hbottom hbyte (y := y)
  refine hwritten.trans ?_
  by_cases htile : x / tileSize = tx ∧ y / tileSize = ty
  · obtain ⟨hx0, hx1⟩ := (mem_column hxw).mp htile.1
    obtain ⟨hy0, hy1⟩ := (mem_row hyh).mp htile.2
    have hcol : tx * tileSize * bytesPerSourcePixel ≤ x * bytesPerSourcePixel + c ∧ x * bytesPerSourcePixel + c <
        tx * tileSize * bytesPerSourcePixel + s.setup.visibleWidth tx * bytesPerSourcePixel := by
      unfold bytesPerSourcePixel at *
      omega
    rw [if_pos ⟨⟨hy0, hy1⟩, hcol⟩, if_pos htile, sourceRow_getD hf hyh hright (by omega)]
    unfold Planar.sample
    congr 1
    unfold bytesPerSourcePixel Planar.bytesPerPixel at *
    omega
  · rw [if_neg htile, if_neg]
    · rfl
    · rintro ⟨hy', hx'⟩
      refine htile ⟨(mem_column hxw).mpr ?_, (mem_row hyh).mpr hy'⟩
      unfold bytesPerSourcePixel at *
      omega

/-! ### The tiles that are sent -/

def isDirty (s : FrameEncoder) (t : ℕ × ℕ) : Bool := s.dirty.getD (t.2 * s.setup.tilesX + t.1) false

/-- What an encoder knows of a tile. -/
structure SameTile (s s' : FrameEncoder) (t : ℕ × ℕ) : Prop where
  dirty : s'.isDirty t = s.isDirty t
  remembered : ∀ x y c, x < s.setup.width → y < s.setup.height → c < bytesPerSourcePixel → x / tileSize = t.1 →
    y / tileSize = t.2 → s'.remembered x y c = s.remembered x y c

variable {t : ℕ × ℕ}

theorem SameTile.remembers {s' : FrameEncoder} (h : SameTile s s' t) (hsetup : s'.setup = s.setup) :
    Remembers s' frame t ↔ Remembers s frame t := by
  unfold Remembers
  rw [hsetup]
  constructor
  · intro hr x y c hx hy hc htile hline
    rw [← h.remembered x y c hx hy hc htile hline]
    exact hr x y c hx hy hc htile hline
  · intro hr x y c hx hy hc htile hline
    rw [h.remembered x y c hx hy hc htile hline]
    exact hr x y c hx hy hc htile hline

theorem sends_eq_false (hs : Sized s) (hf : Fitting s.setup frame) (ht : IsTile s.setup t) :
    s.sends frame t.1 t.2 = false ↔ s.isDirty t = false ∧ Remembers s frame t := by
  unfold sends
  rw [Bool.or_eq_false_iff, tileChanged_eq_false hs hf ht]
  rfl

theorem SameTile.sends {s' : FrameEncoder} (h : SameTile s s' t) (hs : Sized s) (hs' : Sized s')
    (hsetup : s'.setup = s.setup) (hf : Fitting s.setup frame) (ht : IsTile s.setup t) :
    s'.sends frame t.1 t.2 = s.sends frame t.1 t.2 := by
  have hiff : s'.sends frame t.1 t.2 = false ↔ s.sends frame t.1 t.2 = false := by
    rw [sends_eq_false hs' (hsetup ▸ hf) (hsetup ▸ ht), sends_eq_false hs hf ht, h.dirty, h.remembers hsetup]
  cases hsend : s.sends frame t.1 t.2
  · exact hiff.mpr hsend
  · cases hsend' : s'.sends frame t.1 t.2
    · rw [hiff.mp hsend'] at hsend
      cases hsend
    · rfl

/-- A tile that is sent: the encoder behind it. -/
def sentTile (s : FrameEncoder) (frame : ImageView) (t : ℕ × ℕ) : FrameEncoder :=
  { s.rememberTile frame t.1 t.2 with dirty := s.dirty.set (t.2 * s.setup.tilesX + t.1) false }

theorem getD_set {l : List Bool} {i j : ℕ} (hi : i < l.length) (b : Bool) :
    (l.set i b).getD j false = if i = j then b else l.getD j false := by
  rw [getD_eq_getElem?_getD, getElem?_set]
  split_ifs with hij
  · subst hij
    rfl
  · rw [getD_eq_getElem?_getD]

/-- The place of a tile's mark. -/
theorem place_lt (ht : IsTile setup t) : t.2 * setup.tilesX + t.1 < setup.tilesY * setup.tilesX := by
  calc t.2 * setup.tilesX + t.1 < t.2 * setup.tilesX + setup.tilesX := Nat.add_lt_add_left ht.1 _
    _ = (t.2 + 1) * setup.tilesX := (Nat.succ_mul _ _).symm
    _ ≤ setup.tilesY * setup.tilesX := Nat.mul_le_mul_right _ ht.2

theorem sentTile_spec (hs : Sized s) (hf : Fitting s.setup frame) (ht : IsTile s.setup t) :
    Sized (s.sentTile frame t) ∧ (s.sentTile frame t).isDirty t = false ∧ Remembers (s.sentTile frame t) frame t ∧
      ∀ t', IsTile s.setup t' → t' ≠ t → SameTile s (s.sentTile frame t) t' := by
  obtain ⟨hsized, hbytes⟩ := rememberTile_spec hs hf ht
  have hplace : t.2 * s.setup.tilesX + t.1 < s.dirty.length := by
    rw [hs.dirty]
    exact place_lt ht
  refine ⟨⟨hsized.previous, ?_⟩, ?_, ?_, fun t' ht' hne => ⟨?_, ?_⟩⟩
  · change (s.dirty.set _ false).length = _
    rw [length_set]
    exact hs.dirty
  · exact (getD_set hplace false).trans (if_pos rfl)
  · intro x y c hx hy hc htile hline
    have h := hbytes x y c hx hy hc
    rw [if_pos ⟨htile, hline⟩] at h
    exact h
  · refine (getD_set hplace false).trans (if_neg fun hsame => ?_)
    obtain ⟨hrow, hcol⟩ := (Rows.place_eq_iff ht.1 ht'.1).mp hsame
    exact hne (Prod.ext hcol.symm hrow.symm)
  · intro x y c hx hy hc htile hline
    have h := hbytes x y c hx hy hc
    rw [if_neg] at h
    · exact h
    · rintro ⟨htile', hline'⟩
      exact hne (Prod.ext (htile.symm.trans htile') (hline.symm.trans hline'))

/-- What is known after some tiles were looked at. -/
structure Collected (s s' : FrameEncoder) (frame : ImageView) (looked : List (ℕ × ℕ)) : Prop where
  setup : s'.setup = s.setup
  sized : Sized s'
  clean : ∀ t ∈ looked, s'.isDirty t = false
  remembers : ∀ t ∈ looked, Remembers s' frame t
  other : ∀ t, IsTile s.setup t → t ∉ looked → SameTile s s' t

/-- **The tiles sent are the dirty and the changed ones**, and all are remembered. -/
theorem collect_spec (hf : Fitting s.setup frame) (hencodes : ∀ t, IsTile s.setup t →
      ∃ tile, encodeTile s.setup frame t.1 t.2 = some tile) : ∀ (looked : List (ℕ × ℕ)) {s₁ : FrameEncoder},
    s₁.setup = s.setup → Sized s₁ → looked.Nodup → (∀ t ∈ looked, IsTile s.setup t) →
      ∃ tiles s', collect frame looked s₁ = some (tiles, s') ∧ Collected s₁ s' frame looked ∧
        List.Forall₂ (fun t tile => encodeTile s.setup frame t.1 t.2 = some tile)
          (looked.filter fun t => s₁.sends frame t.1 t.2) tiles
  | [], s₁, hsetup, hs, _, _ =>
    ⟨[], s₁, rfl, ⟨rfl, hs, fun _ h => (by cases h), fun _ h => (by cases h),
      fun _ _ _ => ⟨rfl, fun _ _ _ _ _ _ _ _ => rfl⟩⟩,
      .nil⟩
  | t :: looked, s₁, hsetup, hs, hnodup, htiles => by
    obtain ⟨hnot, hrest⟩ := nodup_cons.mp hnodup
    have ht : IsTile s.setup t := htiles t mem_cons_self
    have htiles' : ∀ t' ∈ looked, IsTile s.setup t' := fun t' h => htiles t' (mem_cons_of_mem _ h)
    have hf₁ : Fitting s₁.setup frame := hsetup ▸ hf
    have ht₁ : IsTile s₁.setup t := hsetup ▸ ht
    obtain ⟨tx, ty⟩ := t
    unfold collect
    cases hsend : s₁.sends frame tx ty with
    | false =>
      rw [if_pos rfl, filter_cons_of_neg (by simp [hsend])]
      obtain ⟨hclean, hremembers⟩ := (sends_eq_false hs hf₁ ht₁).mp hsend
      obtain ⟨tiles, s', hcollect, hc, hall⟩ := collect_spec hf hencodes looked hsetup hs hrest htiles'
      have hsame := hc.other (tx, ty) ht₁ hnot
      refine ⟨tiles, s', hcollect, ⟨hc.setup, hc.sized, ?_, ?_, ?_⟩, hall⟩
      · intro t ht
        obtain rfl | ht := mem_cons.mp ht
        · exact hsame.dirty.trans hclean
        · exact hc.clean t ht
      · intro t ht
        obtain rfl | ht := mem_cons.mp ht
        · exact (hsame.remembers hc.setup).mpr hremembers
        · exact hc.remembers t ht
      · exact fun t ht hnot => hc.other t ht fun hmem => hnot (mem_cons_of_mem _ hmem)
    | true =>
      rw [if_neg (by simp), filter_cons_of_pos (by simp [hsend])]
      obtain ⟨tile, htile⟩ := hencodes _ ht
      obtain ⟨hsized, hclean, hremembers, hothers⟩ := sentTile_spec hs hf₁ ht₁
      have hsetup' : (s₁.sentTile frame (tx, ty)).setup = s.setup := hsetup
      obtain ⟨tiles, s', hcollect, hc, hall⟩ := collect_spec hf hencodes looked hsetup' hsized hrest htiles'
      have hne : ∀ t ∈ looked, t ≠ (tx, ty) := fun t ht heq => hnot (heq ▸ ht)
      have hsame := hc.other (tx, ty) ht₁ hnot
      refine ⟨tile :: tiles, s', ?_, ⟨hc.setup, hc.sized, ?_, ?_, ?_⟩, ?_⟩
      · change encodeTile s.setup frame tx ty = some tile at htile
        rw [hsetup, htile]
        change (collect frame looked { s₁.rememberTile frame tx ty with
          dirty := s₁.dirty.set (ty * s.setup.tilesX + tx) false }).bind _ = _
        rw [← hsetup]
        change (collect frame looked (s₁.sentTile frame (tx, ty))).bind _ = _
        rw [hcollect]
        rfl
      · intro t ht
        obtain rfl | ht := mem_cons.mp ht
        · exact hsame.dirty.trans hclean
        · exact hc.clean t ht
      · intro t ht
        obtain rfl | ht := mem_cons.mp ht
        · exact (hsame.remembers hc.setup).mpr hremembers
        · exact hc.remembers t ht
      · intro t ht hnot
        have hfirst := hothers t ht fun heq => hnot (heq ▸ mem_cons_self)
        have hsecond := hc.other t ht fun hmem => hnot (mem_cons_of_mem _ hmem)
        exact ⟨hsecond.dirty.trans hfirst.dirty, fun x y c hx hy hc' htile hline =>
          (hsecond.remembered x y c hx hy hc' htile hline).trans (hfirst.remembered x y c hx hy hc' htile hline)⟩
      · refine .cons htile ?_
        have hfilter : looked.filter (fun t => (s₁.sentTile frame (tx, ty)).sends frame t.1 t.2) =
            looked.filter fun t => s₁.sends frame t.1 t.2 := by
          refine filter_congr fun t ht => ?_
          have ht₁ : IsTile s₁.setup t := hsetup ▸ htiles' t ht
          exact (hothers t ht₁ (hne t ht)).sends hs hsized rfl hf₁ ht₁
        rw [← hfilter]
        exact hall

end

end FrameEncoder
end Server
end Farland
