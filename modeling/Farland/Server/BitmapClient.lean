/-
# A client of bitmap updates

What a client makes of the updates of a `FrameEncoder`: it decodes each, makes
a picture of every rectangle (a planar stream, or raw rows bottom-up) and
paints what lies in the destination.

Key theorems: `paint_tile`, **`encode_spec`**.
-/
import Farland.Server.TileData

namespace Farland
namespace Server

open List

open Codec.Clear (ImageView)
open Codec Proto.Bitmap

namespace BitmapClient

open FrameEncoder

/-- Blue, green and red. -/
abbrev Color := UInt8 × UInt8 × UInt8

abbrev Picture := ℕ → ℕ → Color

def colorAt (bytes : List UInt8) (at_ : ℕ) : Color := (bytes.getD at_ 0, bytes.getD (at_ + 1) 0, bytes.getD (at_ + 2) 0)

/-- The picture in a rectangle, top-down. -/
def pixels (rect : BitmapData) : Option Picture :=
  if rect.flags &&& BitmapFlags.compression ≠ 0 then
    match Planar.decode rect.data rect.width rect.height .bottomUp with
    | .ok picture => some fun x y => colorAt picture (y * (rect.width * bytesPerSourcePixel) + x * bytesPerSourcePixel)
    | .error _ => none
  else if rect.data.length < rect.height * rowBytes rect.width rect.bitsPerPixel then none
  else some fun x y => colorAt rect.data
    ((rect.height - 1 - y) * rowBytes rect.width rect.bitsPerPixel + x * (rect.bitsPerPixel / 8))

/-- A picture cut to the destination of its rectangle. -/
def paint (rect : BitmapData) (picture screen : Picture) : Picture := fun x y =>
  if (rect.destLeft ≤ x ∧ x ≤ rect.destRight) ∧ rect.destTop ≤ y ∧ y ≤ rect.destBottom then
    picture (x - rect.destLeft) (y - rect.destTop)
  else screen x y

def paintAll : List BitmapData → Picture → Option Picture
  | [], screen => some screen
  | rect :: rects, screen => do
    let picture ← pixels rect
    paintAll rects (paint rect picture screen)

/-- The screen after some updates. -/
def receive : List (List UInt8) → Picture → Option Picture
  | [], screen => some screen
  | update :: updates, screen => do
    let rects ← (decodeBitmapUpdate update).toOption
    let screen ← paintAll rects screen
    receive updates screen

/-! ### Painting -/

def frameColor (frame : ImageView) (x y : ℕ) : Color :=
  (Planar.sample frame x y 0, Planar.sample frame x y 1, Planar.sample frame x y 2)

section

variable {setup : Setup} {frame : ImageView} {t : ℕ × ℕ} {rect : BitmapData}

theorem fullAlpha_colorAt (image : ImageView) {x y : ℕ} (hx : x < image.width) (hy : y < image.height) :
    colorAt (Planar.fullAlpha image) (y * (image.width * bytesPerSourcePixel) + x * bytesPerSourcePixel) =
      frameColor image x y := by
  have hbyte : ∀ c < bytesPerSourcePixel, (Planar.fullAlpha image).getD
      (y * (image.width * bytesPerSourcePixel) + (x * bytesPerSourcePixel + c)) 0 =
        [Planar.sample image x y 0, Planar.sample image x y 1, Planar.sample image x y 2, 0xFF].getD c 0 := by
    intro c hc
    have hin : x * bytesPerSourcePixel + c < image.width * bytesPerSourcePixel := by
      unfold bytesPerSourcePixel at *
      omega
    have hrow : ∀ y < image.height, ((List.range image.width).flatMap fun x => [Planar.sample image x y Planar.offsetB,
        Planar.sample image x y Planar.offsetG, Planar.sample image x y Planar.offsetR, 0xFF]).length =
          image.width * bytesPerSourcePixel := fun _ _ => Rows.length_flatMap_range image.width fun _ _ => rfl
    unfold Planar.fullAlpha
    rw [Rows.getD_flatMap_range hrow hy hin 0]
    have hpixel : ∀ x < image.width, [Planar.sample image x y Planar.offsetB, Planar.sample image x y Planar.offsetG,
        Planar.sample image x y Planar.offsetR, (0xFF : UInt8)].length = bytesPerSourcePixel := fun _ _ => rfl
    exact Rows.getD_flatMap_range hpixel hx hc 0
  exact Prod.ext (hbyte 0 (by decide)) (Prod.ext (hbyte 1 (by decide)) (hbyte 2 (by decide)))

/-- The colours of a tile's copy are the frame's. -/
theorem tileView_color (hf : Fitting setup frame) (ht : IsTile setup t) {dx dy : ℕ} (hx : dx < setup.visibleWidth t.1)
    (hy : dy < setup.tileHeight t.2) : frameColor (tileView setup frame t) dx dy =
      frameColor frame (t.1 * tileSize + dx) (t.2 * tileSize + dy) := by
  have hbyte : ∀ c < bytesPerSourcePixel, Planar.sample (tileView setup frame t) dx dy c =
      Planar.sample frame (t.1 * tileSize + dx) (t.2 * tileSize + dy) c := by
    intro c hc
    rw [← copyTile_getD hf (tile_part ht) hx hy hc, ← Nat.add_assoc]
    rfl
  exact Prod.ext (hbyte 0 (by decide)) (Prod.ext (hbyte 1 (by decide)) (hbyte 2 (by decide)))

/-- The picture of a tile's rectangle. -/
theorem pixels_tile (hdepth : setup.bpp = 32 ∨ setup.bpp = 24) (hf : Fitting setup frame) (ht : IsTile setup t)
    (hrect : RectOf setup t rect) (hdata : DataOf setup frame t rect.data) : ∃ picture, pixels rect = some picture ∧
      ∀ dx dy, dx < setup.visibleWidth t.1 → dy < setup.tileHeight t.2 →
        picture dx dy = frameColor frame (t.1 * tileSize + dx) (t.2 * tileSize + dy) := by
  obtain ⟨-, -, hpadded, -⟩ := tile_sizes ht
  unfold pixels
  rw [hrect.flags, hrect.width, hrect.height, hrect.bitsPerPixel]
  generalize rect.data = data at hdata ⊢
  cases hdata with
  | planar hcodec hdecode _ =>
    have hcompressed : updateFlags setup &&& BitmapFlags.compression ≠ 0 := by
      unfold updateFlags
      rw [hcodec]
      cases setup.omitHeader <;> decide
    rw [if_pos hcompressed, hdecode]
    refine ⟨_, rfl, fun dx dy hx hy => ?_⟩
    rw [← tileView_color hf ht hx hy]
    exact fullAlpha_colorAt (tileView setup frame t) (Nat.lt_of_lt_of_le hx hpadded) hy
  | uncompressed hcodec =>
    have hraw : ¬ updateFlags setup &&& BitmapFlags.compression ≠ 0 := by
      unfold updateFlags
      rw [hcodec]
      dsimp only
      decide
    rw [if_neg hraw, if_neg (by rw [uncompressed_length setup.depth]; exact Nat.lt_irrefl _)]
    refine ⟨_, rfl, fun dx dy hx hy => ?_⟩
    rw [← tileView_color hf ht hx hy]
    have hbyte : ∀ c < 3, (uncompressed (tileView setup frame t).data (setup.paddedWidth t.1) (setup.tileHeight t.2)
        setup.bpp).getD ((setup.tileHeight t.2 - 1 - dy) * rowBytes (setup.paddedWidth t.1) setup.bpp +
          (dx * (setup.bpp / 8) + c)) 0 = Planar.sample (tileView setup frame t) dx dy c := by
      intro c hc
      rw [uncompressed_getD hdepth _ (Nat.lt_of_lt_of_le hx hpadded) hy hc, ← Nat.add_assoc]
      rfl
    exact Prod.ext (hbyte 0 (by decide)) (Prod.ext (hbyte 1 (by decide)) (hbyte 2 (by decide)))

/-- **A tile's rectangle paints the tile of the frame**, and nothing else. -/
theorem paint_tile (hrect : RectOf setup t rect) {picture screen : Picture}
    (hpicture : ∀ dx dy, dx < setup.visibleWidth t.1 → dy < setup.tileHeight t.2 →
      picture dx dy = frameColor frame (t.1 * tileSize + dx) (t.2 * tileSize + dy)) {x y : ℕ} (hx : x < setup.width)
    (hy : y < setup.height) : paint rect picture screen x y =
      if (x / tileSize, y / tileSize) = t then frameColor frame x y else screen x y := by
  have hright := hrect.right
  have hbottom := hrect.bottom
  unfold paint
  rw [hrect.left, hrect.top]
  have hinside : ((t.1 * tileSize ≤ x ∧ x ≤ rect.destRight) ∧ t.2 * tileSize ≤ y ∧ y ≤ rect.destBottom) ↔
      (x / tileSize, y / tileSize) = t := by
    rw [Prod.ext_iff]
    rw [mem_column hx, mem_row hy]
    omega
  rw [if_congr hinside rfl rfl]
  by_cases htile : (x / tileSize, y / tileSize) = t
  · obtain ⟨⟨hx0, _⟩, hy0, _⟩ := hinside.mpr htile
    rw [hpicture _ _ (by omega) (by omega), Nat.add_sub_cancel' hx0, Nat.add_sub_cancel' hy0]
  · rw [if_neg htile, if_neg htile]

/-- The rectangles of some tiles of a frame. -/
def RectsOf (setup : Setup) (frame : ImageView) : List (ℕ × ℕ) → List BitmapData → Prop :=
  List.Forall₂ fun t rect => IsTile setup t ∧ RectOf setup t rect ∧ DataOf setup frame t rect.data

variable {rects : List BitmapData}

/-- The screen after some tiles. -/
theorem paintAll_tiles (hdepth : setup.bpp = 32 ∨ setup.bpp = 24) (hf : Fitting setup frame) {ts : List (ℕ × ℕ)}
    (h : RectsOf setup frame ts rects) : ∀ (screen : Picture), ∃ screen',
      paintAll rects screen = some screen' ∧ ∀ x y, x < setup.width → y < setup.height →
        screen' x y = if (x / tileSize, y / tileSize) ∈ ts then frameColor frame x y else screen x y := by
  unfold RectsOf at h
  induction h with
  | nil => exact fun screen => ⟨screen, rfl, fun _ _ _ _ => by simp⟩
  | @cons t rect ts rects hfirst _ ih =>
    intro screen
    obtain ⟨ht, hrect, hdata⟩ := hfirst
    obtain ⟨picture, hpixels, hpicture⟩ := pixels_tile hdepth hf ht hrect hdata
    obtain ⟨screen', hpaint, hshown⟩ := ih (paint rect picture screen)
    refine ⟨screen', ?_, fun x y hx hy => ?_⟩
    · rw [paintAll, hpixels]
      exact hpaint
    · rw [hshown x y hx hy, paint_tile hrect hpicture hx hy]
      by_cases hin : (x / tileSize, y / tileSize) ∈ ts
      · rw [if_pos hin, if_pos (mem_cons_of_mem _ hin)]
      · rw [if_neg hin]
        by_cases heq : (x / tileSize, y / tileSize) = t
        · rw [if_pos heq, if_pos (by rw [heq]; exact mem_cons_self)]
        · rw [if_neg heq, if_neg]
          intro hmem
          obtain hmem | hmem := mem_cons.mp hmem
          · exact heq hmem
          · exact hin hmem

/-! ### Receiving updates -/

theorem paintAll_append : ∀ (rects rects' : List BitmapData) (screen : Picture),
    paintAll (rects ++ rects') screen = (paintAll rects screen).bind (paintAll rects')
  | [], _, _ => rfl
  | rect :: rects, rects', screen => by
    rw [cons_append, paintAll, paintAll]
    cases pixels rect with
    | none => rfl
    | some picture => exact paintAll_append rects rects' _

/-- Updates are painted like the rectangles they carry. -/
theorem receive_carried {maxUpdateSize : ℕ} {updates : List (List UInt8)} (h : Carries maxUpdateSize updates rects) :
    ∀ screen, receive updates screen = paintAll rects screen := by
  obtain ⟨groups, rfl, hall⟩ := h
  induction hall with
  | nil => exact fun _ => rfl
  | @cons group update groups updates hfirst _ ih =>
    intro screen
    rw [receive, hfirst.1, flatten_cons, paintAll_append]
    change (paintAll group screen).bind (fun screen => receive updates screen) = _
    congr 1
    funext screen
    exact ih screen

/-- A rectangle in some updates. -/
def InUpdates (updates : List (List UInt8)) (rect : BitmapData) : Prop :=
  ∃ update ∈ updates, ∃ rects, decodeBitmapUpdate update = .ok rects ∧ rect ∈ rects

theorem mem_of_inUpdates {maxUpdateSize : ℕ} {updates : List (List UInt8)} (h : Carries maxUpdateSize updates rects)
    {rect : BitmapData} (hin : InUpdates updates rect) : rect ∈ rects := by
  obtain ⟨groups, rfl, hall⟩ := h
  obtain ⟨update, hmem, group, hdecode, hrect⟩ := hin
  induction hall with
  | nil => cases hmem
  | @cons group' update' groups updates hfirst _ ih =>
    rw [flatten_cons, mem_append]
    obtain rfl | hmem := mem_cons.mp hmem
    · rw [hfirst.1] at hdecode
      cases hdecode
      exact .inl hrect
    · exact .inr (ih hmem)

end

end BitmapClient

/-! ### One encode -/

namespace FrameEncoder

open BitmapClient

section

variable {s : FrameEncoder} {frame : ImageView} {maxUpdateSize : ℕ}

/-- The tiles that an encode sends. -/
def sentTiles (s : FrameEncoder) (frame : ImageView) : List (ℕ × ℕ) :=
  s.setup.tiles.filter fun t => s.sends frame t.1 t.2

/-- The bytes a tile takes in an update. -/
def tileBytes (setup : Setup) (frame : ImageView) (t : ℕ × ℕ) : ℕ :=
  ((encodeTile setup frame t.1 t.2).map fun tile => (rectOf setup tile).encodedSize).getD 0

/-- An update can hold every tile of the frame. -/
def HoldsTiles (setup : Setup) (frame : ImageView) (maxUpdateSize : ℕ) : Prop :=
  ∀ t, IsTile setup t → updateHeaderSize + tileBytes setup frame t ≤ maxUpdateSize

/-- No update of the frame has more rectangles than it can count. -/
def FrameCountable (s : FrameEncoder) (frame : ImageView) (maxUpdateSize : ℕ) : Prop :=
  Countable maxUpdateSize 0 updateHeaderSize ((s.sentTiles frame).map (tileBytes s.setup frame))

theorem rects_of_tiles (hf : Fitting s.setup frame) : ∀ {ts : List (ℕ × ℕ)} {tiles : List EncodedTile},
    (∀ t ∈ ts, IsTile s.setup t) →
    List.Forall₂ (fun t tile => encodeTile s.setup frame t.1 t.2 = some tile) ts tiles →
      RectsOf s.setup frame ts (tiles.map (rectOf s.setup)) ∧
      (tiles.map (rectOf s.setup)).map BitmapData.encodedSize = ts.map (tileBytes s.setup frame) ∧
      ∀ rect ∈ tiles.map (rectOf s.setup), Fits rect
  | _, _, _, .nil => ⟨.nil, rfl, fun _ h => (by cases h)⟩
  | t :: ts, tile :: tiles, hts, .cons htile hrest => by
    obtain ⟨hrects, hsizes, hfits⟩ := rects_of_tiles hf (fun t ht => hts t (mem_cons_of_mem _ ht)) hrest
    have ht := hts t mem_cons_self
    obtain ⟨tile', htile', hrect, hdata, hfit⟩ := encodeTile_spec hf ht
    obtain rfl : tile = tile' := Option.some.inj (htile.symm.trans htile')
    refine ⟨.cons ⟨ht, hrect, hdata⟩ hrects, ?_, ?_⟩
    · rw [map_cons, map_cons, map_cons, hsizes]
      congr 1
      unfold tileBytes
      rw [htile]
      rfl
    · intro rect hmem
      obtain rfl | hmem := mem_cons.mp hmem
      · exact hfit
      · exact hfits rect hmem

/-- What an encode collects and packs. -/
theorem encode_eq (maxUpdateSize : ℕ) (hs : Sized s) (hf : Fitting s.setup frame) : ∃ rects s',
    s.encode frame maxUpdateSize = (pack maxUpdateSize rects {}).map (fun updates => (updates, s')) ∧
      Collected s s' frame s.setup.tiles ∧ RectsOf s.setup frame (s.sentTiles frame) rects ∧
      rects.map BitmapData.encodedSize = (s.sentTiles frame).map (tileBytes s.setup frame) ∧ ∀ rect ∈ rects,
        Fits rect := by
  have hencodes : ∀ t, IsTile s.setup t → ∃ tile, encodeTile s.setup frame t.1 t.2 = some tile := by
    intro t ht
    obtain ⟨tile, htile, -⟩ := encodeTile_spec hf ht
    exact ⟨tile, htile⟩
  obtain ⟨tiles, s', hcollect, hcollected, hall⟩ := collect_spec hf hencodes s.setup.tiles rfl hs (tiles_nodup s.setup)
    fun t ht => (mem_tiles t).mp ht
  obtain ⟨hrects, hsizes, hfits⟩ := rects_of_tiles hf
    (fun t ht => (mem_tiles t).mp (mem_of_mem_filter ht)) hall
  refine ⟨tiles.map (rectOf s.setup), s', ?_, hcollected, hrects, hsizes, hfits⟩
  have hsetup : s'.setup = s.setup := hcollected.setup
  unfold encode
  rw [asserts, if_pos ⟨hf.width, hf.height⟩, hcollect]
  change (pack maxUpdateSize (tiles.map (rectOf s'.setup)) {}).bind _ = _
  rw [hsetup]
  cases pack maxUpdateSize (tiles.map (rectOf s.setup)) {} <;> rfl

/-- An encode that returns: what it sends and what it remembers. -/
structure Encoded (s s' : FrameEncoder) (frame : ImageView) (maxUpdateSize : ℕ) (updates : List (List UInt8))
    (rects : List BitmapData) : Prop where
  carries : Carries maxUpdateSize updates rects
  rects : RectsOf s.setup frame (s.sentTiles frame) rects
  collected : Collected s s' frame s.setup.tiles

theorem filling_empty : Filling maxUpdateSize {} := ⟨fun _ h => (by cases h), rfl, fun h => absurd rfl h⟩

theorem packable_of_holds (hmax : HoldsTiles s.setup frame maxUpdateSize) {rects : List BitmapData}
    (hsizes : rects.map BitmapData.encodedSize = (s.sentTiles frame).map (tileBytes s.setup frame))
    (hfits : ∀ rect ∈ rects, Fits rect) : Packable maxUpdateSize rects := by
  intro rect hrect
  refine ⟨hfits rect hrect, ?_⟩
  have hmem : rect.encodedSize ∈ (s.sentTiles frame).map (tileBytes s.setup frame) :=
    hsizes ▸ mem_map_of_mem hrect
  obtain ⟨t, ht, hsize⟩ := mem_map.mp hmem
  rw [← hsize]
  exact hmax t ((mem_tiles t).mp (mem_of_mem_filter ht))

/-- **An encode returns** when its updates can count their rectangles. -/
theorem encode_spec (hs : Sized s) (hf : Fitting s.setup frame) (hmax : HoldsTiles s.setup frame maxUpdateSize)
    (hcount : s.FrameCountable frame maxUpdateSize) : ∃ updates s' rects,
      s.encode frame maxUpdateSize = some (updates, s') ∧ Encoded s s' frame maxUpdateSize updates rects := by
  obtain ⟨rects, s', hencode, hcollected, hrects, hsizes, hfits⟩ := encode_eq maxUpdateSize hs hf
  have hcount' : Countable maxUpdateSize 0 updateHeaderSize (rects.map BitmapData.encodedSize) := by
    rw [hsizes]
    exact hcount
  obtain ⟨updates, hpack, hcarries⟩ := pack_spec rects (packable_of_holds hmax hsizes hfits) filling_empty hcount'
  refine ⟨updates, s', rects, ?_, hcarries, hrects, hcollected⟩
  rw [hencode, hpack]
  rfl

/-- Otherwise it fails an assertion. -/
theorem encode_none (hs : Sized s) (hf : Fitting s.setup frame) (hmax : HoldsTiles s.setup frame maxUpdateSize)
    (hcount : ¬ s.FrameCountable frame maxUpdateSize) : s.encode frame maxUpdateSize = none := by
  obtain ⟨rects, s', hencode, -, -, hsizes, hfits⟩ := encode_eq maxUpdateSize hs hf
  have hcount' : ¬ Countable maxUpdateSize 0 updateHeaderSize (rects.map BitmapData.encodedSize) := by
    rw [hsizes]
    exact hcount
  rw [hencode, pack_none rects (packable_of_holds hmax hsizes hfits) filling_empty hcount']
  rfl

/-- And so it does when a tile is too large for an update. -/
theorem encode_too_large (hs : Sized s) (hf : Fitting s.setup frame) {t : ℕ × ℕ} (ht : t ∈ s.sentTiles frame)
    (hlarge : maxUpdateSize < updateHeaderSize + tileBytes s.setup frame t) : s.encode frame maxUpdateSize = none := by
  obtain ⟨rects, s', hencode, -, -, hsizes, -⟩ := encode_eq maxUpdateSize hs hf
  have hmem : tileBytes s.setup frame t ∈ rects.map BitmapData.encodedSize := hsizes ▸ mem_map_of_mem ht
  obtain ⟨rect, hrect, hsize⟩ := mem_map.mp hmem
  rw [hencode, pack_too_large hrect (hsize ▸ hlarge)]
  rfl

end

end FrameEncoder
end Server
end Farland
