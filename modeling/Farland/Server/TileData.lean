/-
# The data of a tile

What `encode_tile` puts into a rectangle, as a client reads it: raw rows,
bottom-up and padded, or a planar stream, each with the pixels of the frame
and the last column repeated behind them.

Key theorems: `copyTile_getD`, `uncompressed_getD`, **`encodeTile_spec`**.
-/
import Farland.Server.FramePacking
import Mathlib.Data.List.GetD

namespace Farland
namespace Server
namespace FrameEncoder

open List Nat

open Codec.Clear (ImageView)
open Codec Proto.Bitmap

section

variable {setup : Setup} {frame : ImageView} {t : ℕ × ℕ} {x y visibleWidth height paddedWidth : ℕ}

/-! ### Copied tiles -/

/-- A part of the desktop and the width it is padded to. -/
structure Part (setup : Setup) (x y visibleWidth height paddedWidth : ℕ) : Prop where
  right : x + visibleWidth ≤ setup.width
  bottom : y + height ≤ setup.height
  visible : 0 < visibleWidth
  padded : visibleWidth ≤ paddedWidth

theorem flatten_replicate_length (count : ℕ) (l : List UInt8) : (List.replicate count l).flatten.length = count * l.length := by
  rw [length_flatten, map_replicate, sum_replicate, smul_eq_mul]

theorem copyRow_length (hf : Fitting setup frame) (hp : Part setup x y visibleWidth height paddedWidth) {row : ℕ}
    (hrow : row < height) : (sourceRow frame (y + row) x visibleWidth ++ (List.replicate (paddedWidth - visibleWidth)
      ((sourceRow frame (y + row) x visibleWidth).drop
        ((sourceRow frame (y + row) x visibleWidth).length - bytesPerSourcePixel))).flatten).length =
      paddedWidth * bytesPerSourcePixel := by
  have hlength := sourceRow_length hf (y := y + row) (Nat.lt_of_lt_of_le (Nat.add_lt_add_left hrow y) hp.bottom) hp.right
  have hvisible := hp.visible
  have hpadded := hp.padded
  have hlast : visibleWidth * bytesPerSourcePixel - (visibleWidth * bytesPerSourcePixel - bytesPerSourcePixel) =
      bytesPerSourcePixel := by
    unfold bytesPerSourcePixel
    omega
  rw [length_append, flatten_replicate_length, length_drop, hlength, hlast, ← Nat.add_mul]
  congr 1
  omega

theorem copyTile_length (hf : Fitting setup frame) (hp : Part setup x y visibleWidth height paddedWidth) :
    (copyTile frame x y visibleWidth height paddedWidth).length = height * (paddedWidth * bytesPerSourcePixel) :=
  Rows.length_flatMap_range height fun _ hrow => copyRow_length hf hp hrow

/-- The bytes of a tile are the frame's. -/
theorem copyTile_getD (hf : Fitting setup frame) (hp : Part setup x y visibleWidth height paddedWidth) {dx dy c : ℕ}
    (hx : dx < visibleWidth) (hy : dy < height) (hc : c < bytesPerSourcePixel) :
    (copyTile frame x y visibleWidth height paddedWidth).getD
        (dy * (paddedWidth * bytesPerSourcePixel) + (dx * bytesPerSourcePixel + c)) 0 =
      Planar.sample frame (x + dx) (y + dy) c := by
  have hpadded := hp.padded
  have hin : dx * bytesPerSourcePixel + c < visibleWidth * bytesPerSourcePixel := by
    unfold bytesPerSourcePixel at *
    omega
  have hin' : dx * bytesPerSourcePixel + c < paddedWidth * bytesPerSourcePixel :=
    Nat.lt_of_lt_of_le hin (Nat.mul_le_mul_right _ hpadded)
  have hline : y + dy < setup.height := Nat.lt_of_lt_of_le (Nat.add_lt_add_left hy y) hp.bottom
  have hlength := sourceRow_length hf hline hp.right
  unfold copyTile
  rw [Rows.getD_flatMap_range (fun _ hrow => copyRow_length hf hp hrow) hy hin' 0]
  rw [getD_append _ _ _ _ (by rw [hlength]; exact hin), sourceRow_getD hf hline hp.right hin]
  unfold Planar.sample
  congr 1
  unfold bytesPerSourcePixel Planar.bytesPerPixel
  omega

/-! ### Raw rows -/

variable {bpp : ℕ}

theorem pixelBytes_length (hdepth : bpp = 32 ∨ bpp = 24 ∨ bpp = 16) (b g r : UInt8) :
    (pixelBytes bpp b g r).length = bpp / 8 := by
  obtain rfl | rfl | rfl := hdepth <;> rfl

theorem uncompressedPixels_length (hdepth : bpp = 32 ∨ bpp = 24 ∨ bpp = 16) (tile : List UInt8) (width row : ℕ) :
    (uncompressedPixels tile width bpp row).length = width * (bpp / 8) :=
  Rows.length_flatMap_range width fun _ _ => pixelBytes_length hdepth _ _ _

theorem rowBytes_spec (width bpp : ℕ) : width * (bpp / 8) ≤ rowBytes width bpp := by
  unfold rowBytes
  omega

theorem uncompressedRow_length (hdepth : bpp = 32 ∨ bpp = 24 ∨ bpp = 16) (tile : List UInt8) (width row : ℕ) :
    (uncompressedPixels tile width bpp row ++
      Writer.zeros (rowBytes width bpp - (uncompressedPixels tile width bpp row).length)).length = rowBytes width bpp := by
  have hfits := rowBytes_spec width bpp
  rw [length_append, Writer.zeros, length_replicate, uncompressedPixels_length hdepth]
  omega

theorem uncompressed_length (hdepth : bpp = 32 ∨ bpp = 24 ∨ bpp = 16) (tile : List UInt8) (width height : ℕ) :
    (uncompressed tile width height bpp).length = height * rowBytes width bpp :=
  Rows.length_flatMap_range height fun _ _ => uncompressedRow_length hdepth _ _ _

/-- Raw rows hold a tile upside down. -/
theorem uncompressed_getD (hdepth : bpp = 32 ∨ bpp = 24) (tile : List UInt8) {width dx dy c : ℕ} (hx : dx < width)
    (hy : dy < height) (hc : c < 3) :
    (uncompressed tile width height bpp).getD ((height - 1 - dy) * rowBytes width bpp + (dx * (bpp / 8) + c)) 0 =
      tile.getD (dy * (width * bytesPerSourcePixel) + (dx * bytesPerSourcePixel + c)) 0 := by
  have hdepth' : bpp = 32 ∨ bpp = 24 ∨ bpp = 16 := by omega
  have hin : dx * (bpp / 8) + c < width * (bpp / 8) := by
    calc dx * (bpp / 8) + c < dx * (bpp / 8) + bpp / 8 := by omega
      _ = (dx + 1) * (bpp / 8) := (succ_mul _ _).symm
      _ ≤ width * (bpp / 8) := Nat.mul_le_mul_right _ hx
  have hrow : height - 1 - dy < height := by omega
  have hback : height - 1 - (height - 1 - dy) = dy := by omega
  unfold uncompressed
  rw [Rows.getD_flatMap_range (fun _ _ => uncompressedRow_length hdepth' _ _ _) hrow
    (Nat.lt_of_lt_of_le hin (rowBytes_spec width bpp)) 0, hback,
    getD_append _ _ _ _ (by rw [uncompressedPixels_length hdepth']; exact hin)]
  unfold uncompressedPixels
  rw [Rows.getD_flatMap_range (fun _ _ => pixelBytes_length hdepth' _ _ _) hx (by omega) 0]
  have hpixel : ∀ b g r : UInt8, (pixelBytes bpp b g r).getD c 0 = [b, g, r].getD c 0 := by
    intro b g r
    obtain rfl | rfl := hdepth
    · obtain rfl | rfl | rfl : c = 0 ∨ c = 1 ∨ c = 2 := by omega
      all_goals rfl
    · rfl
  rw [hpixel]
  obtain rfl | rfl | rfl : c = 0 ∨ c = 1 ∨ c = 2 := by omega
  all_goals rfl

/-! ### Tiles of the desktop -/

theorem tile_sizes (ht : IsTile setup t) : (0 < setup.visibleWidth t.1 ∧ setup.visibleWidth t.1 ≤ tileSize) ∧
    (0 < setup.tileHeight t.2 ∧ setup.tileHeight t.2 ≤ tileSize) ∧
    setup.visibleWidth t.1 ≤ setup.paddedWidth t.1 ∧ setup.paddedWidth t.1 ≤ tileSize := by
  have hx := (tilesX_spec setup).mp ht.1
  have hy := (tilesY_spec setup).mp ht.2
  unfold Setup.paddedWidth Setup.visibleWidth Setup.tileHeight tileSize at *
  omega

theorem tile_part (ht : IsTile setup t) : Part setup (t.1 * tileSize) (t.2 * tileSize) (setup.visibleWidth t.1)
    (setup.tileHeight t.2) (setup.paddedWidth t.1) := by
  have hx := (tilesX_spec setup).mp ht.1
  have hy := (tilesY_spec setup).mp ht.2
  obtain ⟨⟨hvisible, -⟩, -, hpadded, -⟩ := tile_sizes ht
  refine ⟨?_, ?_, hvisible, hpadded⟩
  · unfold Setup.visibleWidth
    omega
  · unfold Setup.tileHeight
    omega

/-- A tile as the planar encoder sees it. -/
def tileView (setup : Setup) (frame : ImageView) (t : ℕ × ℕ) : ImageView :=
  ⟨copyTile frame (t.1 * tileSize) (t.2 * tileSize) (setup.visibleWidth t.1) (setup.tileHeight t.2)
    (setup.paddedWidth t.1), setup.paddedWidth t.1, setup.tileHeight t.2, setup.paddedWidth t.1 * bytesPerSourcePixel⟩

theorem tileView_valid (hf : Fitting setup frame) (ht : IsTile setup t) : Planar.Valid (tileView setup frame t) := by
  obtain ⟨⟨hvisible, -⟩, ⟨hheight, hheight'⟩, hpadded, hpadded'⟩ := tile_sizes ht
  have hlength := copyTile_length hf (tile_part ht)
  have hstride : 0 < setup.paddedWidth t.1 * bytesPerSourcePixel := by
    unfold bytesPerSourcePixel
    omega
  unfold tileSize at hheight' hpadded'
  have hrows : (tileView setup frame t).data.length =
      setup.tileHeight t.2 * (setup.paddedWidth t.1 * bytesPerSourcePixel) := hlength
  refine ⟨⟨?_, ?_⟩, ⟨hheight, ?_⟩, Nat.le_refl _, ?_, ?_⟩
  · exact Nat.lt_of_lt_of_le hvisible hpadded
  · exact Nat.le_trans hpadded' (by decide)
  · exact Nat.le_trans hheight' (by decide)
  · rw [hrows]
    exact Nat.le_mul_of_pos_left _ hheight
  · rw [hrows]
    change setup.tileHeight t.2 - 1 ≤ (setup.tileHeight t.2 * (setup.paddedWidth t.1 * bytesPerSourcePixel) -
      setup.paddedWidth t.1 * bytesPerSourcePixel) / (setup.paddedWidth t.1 * bytesPerSourcePixel)
    rw [← Nat.sub_one_mul, Nat.mul_div_cancel _ hstride]

/-- What a tile's data can be. -/
inductive DataOf (setup : Setup) (frame : ImageView) (t : ℕ × ℕ) : List UInt8 → Prop
  | planar {data : List UInt8} (hcodec : setup.codec = .planar)
      (hdecode : Planar.decode data (setup.paddedWidth t.1) (setup.tileHeight t.2) .bottomUp =
        .ok (Planar.fullAlpha (tileView setup frame t)))
      (hlength : data.length ≤ 2 + 3 * (setup.paddedWidth t.1 * setup.tileHeight t.2)) : DataOf setup frame t data
  | uncompressed (hcodec : setup.codec = .uncompressed) : DataOf setup frame t
      (uncompressed (tileView setup frame t).data (setup.paddedWidth t.1) (setup.tileHeight t.2) setup.bpp)

theorem tileData_spec (hf : Fitting setup frame) (ht : IsTile setup t) :
    ∃ data, tileData setup frame t.1 t.2 = some data ∧ DataOf setup frame t data := by
  unfold tileData
  cases hcodec : setup.codec with
  | planar =>
    obtain ⟨data, hdata, hdecode, hlength⟩ := Planar.decode_encode (tileView_valid hf ht) .automatic .bottomUp
    refine ⟨data, hdata, .planar hcodec hdecode ?_⟩
    have hle := hlength rfl
    unfold Planar.rawStreamSize Planar.Geometry.pixels at hle
    exact Nat.le_trans hle (Nat.le_of_eq (by change 1 + 3 * (setup.paddedWidth t.1 * setup.tileHeight t.2) + 1 = _; omega))
  | uncompressed => exact ⟨_, rfl, .uncompressed hcodec⟩

/-- The most bytes a tile can take. -/
def worstTile (setup : Setup) : ℕ :=
  match setup.codec with
  | .planar => 2 + 3 * (tileSize * tileSize)
  | .uncompressed => tileSize * rowBytes tileSize setup.bpp

theorem DataOf.length_le {data : List UInt8} (h : DataOf setup frame t data) (ht : IsTile setup t) :
    data.length ≤ worstTile setup := by
  obtain ⟨-, ⟨-, hheight⟩, -, hpadded⟩ := tile_sizes ht
  unfold worstTile
  cases h with
  | planar hcodec _ hlength =>
    rw [hcodec]
    dsimp only
    have hpixels := Nat.mul_le_mul hpadded hheight
    omega
  | uncompressed hcodec =>
    rw [hcodec, uncompressed_length setup.depth]
    apply Nat.mul_le_mul hheight
    unfold rowBytes
    have hrow := Nat.mul_le_mul_right (setup.bpp / 8) hpadded
    omega

theorem worstTile_le (setup : Setup) : worstTile setup ≤ 16384 := by
  unfold worstTile rowBytes tileSize
  obtain hdepth | hdepth | hdepth := setup.depth
  all_goals
    rw [hdepth]
    cases setup.codec <;> decide

/-- The rectangle of a tile, no field of it cut. -/
structure RectOf (setup : Setup) (t : ℕ × ℕ) (rect : BitmapData) : Prop where
  left : rect.destLeft = t.1 * tileSize
  top : rect.destTop = t.2 * tileSize
  right : rect.destRight + 1 = t.1 * tileSize + setup.visibleWidth t.1
  bottom : rect.destBottom + 1 = t.2 * tileSize + setup.tileHeight t.2
  width : rect.width = setup.paddedWidth t.1
  height : rect.height = setup.tileHeight t.2
  bitsPerPixel : rect.bitsPerPixel = setup.bpp
  flags : rect.flags = updateFlags setup

theorem updateFlags_lt (setup : Setup) : updateFlags setup < 2 ^ 16 := by
  unfold updateFlags
  cases setup.codec with
  | planar => cases setup.omitHeader <;> decide
  | uncompressed =>
    dsimp only
    decide

/-- **Every tile is encoded**, as a rectangle that fits its fields. -/
theorem encodeTile_spec (hf : Fitting setup frame) (ht : IsTile setup t) : ∃ tile,
    encodeTile setup frame t.1 t.2 = some tile ∧ RectOf setup t (rectOf setup tile) ∧
      DataOf setup frame t (rectOf setup tile).data ∧ Fits (rectOf setup tile) := by
  obtain ⟨data, hdata, hof⟩ := tileData_spec hf ht
  obtain ⟨-, -, hwidth, hheight⟩ := setup.size
  have hpart := tile_part ht
  have hright := hpart.right
  have hbottom := hpart.bottom
  obtain ⟨⟨hvisible, -⟩, ⟨htall, htall'⟩, hpadded, hpadded'⟩ := tile_sizes ht
  have hworst := hof.length_le ht
  have hsmall := worstTile_le setup
  refine ⟨⟨t.1 * tileSize, t.2 * tileSize, setup.visibleWidth t.1, setup.tileHeight t.2, setup.paddedWidth t.1, data⟩,
    by rw [encodeTile, hdata]; rfl, ⟨?_, ?_, ?_, ?_, ?_, ?_, rfl, rfl⟩, hof, ?_⟩
  · exact mod_eq_of_lt (show t.1 * tileSize < 2 ^ 16 by omega)
  · exact mod_eq_of_lt (show t.2 * tileSize < 2 ^ 16 by omega)
  · change (t.1 * tileSize + setup.visibleWidth t.1 - 1) % 2 ^ 16 + 1 = _
    omega
  · change (t.2 * tileSize + setup.tileHeight t.2 - 1) % 2 ^ 16 + 1 = _
    omega
  · exact mod_eq_of_lt (Nat.lt_of_le_of_lt hpadded' (by decide))
  · exact mod_eq_of_lt (Nat.lt_of_le_of_lt htall' (by decide))
  · have hmod : ∀ n : ℕ, n % 2 ^ 16 < 2 ^ 16 := fun n => mod_lt _ (by decide)
    have hbpp : setup.bpp ≤ 32 := by
      have hdepth := setup.depth
      omega
    have hscan : setup.paddedWidth t.1 % 2 ^ 16 * setup.bpp / 8 ≤ 256 := by
      have hle : setup.paddedWidth t.1 % 2 ^ 16 ≤ tileSize := Nat.le_trans (mod_le _ _) hpadded'
      calc setup.paddedWidth t.1 % 2 ^ 16 * setup.bpp / 8 ≤ tileSize * 32 / 8 :=
            Nat.div_le_div_right (Nat.mul_le_mul hle hbpp)
        _ = 256 := rfl
    have htall'' : setup.tileHeight t.2 % 2 ^ 16 ≤ 64 := Nat.le_trans (mod_le _ _) htall'
    refine ⟨hmod _, hmod _, hmod _, hmod _, hmod _, hmod _, Nat.lt_of_le_of_lt hbpp (by decide), updateFlags_lt setup,
      ?_, ?_, ?_⟩
    · unfold BitmapData.headerSize compressionHeaderSize
      change data.length + _ ≤ _
      split_ifs <;> omega
    · exact Nat.le_trans hscan (by decide)
    · exact Nat.le_trans (Nat.mul_le_mul hscan htall'') (by decide)

end

end FrameEncoder
end Server
end Farland
