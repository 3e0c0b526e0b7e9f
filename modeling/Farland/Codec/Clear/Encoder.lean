/-
# The ClearCodec encoder

`clear_encoder.cpp`: the mirrors of the client's V-bar, short V-bar and glyph
storages, the choice of a layer for each strip of rows, and the three layers
of a stream. A failed assertion is `none`. The statistics of a call are left
out: nothing but a test reads them.
-/
import Farland.Codec.Clear.Wire
import Mathlib.Data.List.AList

namespace Farland
namespace Codec
namespace Clear

open Writer

/-! ### Constants -/

def bandHeaderSize : ℕ := 11
def subcodecHeaderSize : ℕ := 13
def runSegmentSize : ℕ := 4

def vbarCacheHit : ℕ := 0x8000
def shortVbarCacheHit : ℕ := 0x4000
def vbarHitSize : ℕ := 2
def shortVbarHitSize : ℕ := 3
def shortVbarMissSize : ℕ := 2

/-- Bands are cut at this many consecutive background columns. -/
def minBandGap : ℕ := 6

def maxSeenColumns : ℕ := 2 * vbarCacheSize

def hashColors (colors : List Color) (seed : ℕ) : ℕ :=
  colors.foldl
    (fun h c =>
      let h := (h ^^^ c) * 0x100000001B3 % 2 ^ 64
      h ^^^ h >>> 29)
    (0x9E3779B97F4A7C15 ^^^ seed * 0xFF51AFD7ED558CCD % 2 ^ 64 ^^^ colors.length)

/-! ### The mirrors of the client's storages -/

structure Slot where
  content : List Color := []
  hash : ℕ := 0
  used : Bool := false
  deriving DecidableEq

/-- Mirror of the V-bar or short V-bar storage: entries are written at a
cursor that wraps around, as the client writes them. -/
structure ColumnCache where
  capacity : ℕ
  slots : List Slot := []
  index : AList (fun _ : ℕ => ℕ) := ∅
  cursor : ℕ := 0

namespace ColumnCache

variable (cache : ColumnCache)

def find (content : List Color) : Option ℕ :=
  match cache.index.lookup (hashColors content 0) with
  | none => none
  | some i => if (cache.slots.getD i {}).content = content then some i else none

/-- Stores `content` at the cursor and advances it. -/
def insert (content : List Color) : ColumnCache :=
  let slots := if cache.slots = [] then List.replicate cache.capacity {} else cache.slots
  let slotIndex := cache.cursor % 2 ^ 16
  let slot := slots.getD cache.cursor {}
  let index :=
    if slot.used ∧ cache.index.lookup slot.hash = some slotIndex then cache.index.erase slot.hash else cache.index
  let hash := hashColors content 0
  { cache with
    slots := slots.set cache.cursor ⟨content, hash, true⟩
    index := index.insert hash slotIndex
    cursor := (cache.cursor + 1) % slots.length }

def clear : ColumnCache := { capacity := cache.capacity }

end ColumnCache

structure GlyphSlot where
  pixels : List Color := []
  width : ℕ := 0
  height : ℕ := 0
  hash : ℕ := 0
  lastUse : ℕ := 0
  deriving DecidableEq

/-- Mirror of the glyph storage, which evicts the least recently used slot. -/
structure GlyphCache where
  slots : List GlyphSlot := []
  index : AList (fun _ : ℕ => ℕ) := ∅
  used : ℕ := 0
  clock : ℕ := 0

namespace GlyphCache

def hashOf (image : Image) : ℕ := hashColors image.pixels (image.width <<< 16 ||| image.height)

def find (cache : GlyphCache) (image : Image) : Option ℕ × GlyphCache :=
  match cache.index.lookup (hashOf image) with
  | none => (none, cache)
  | some i =>
    let slot := cache.slots.getD i {}
    if slot.width ≠ image.width ∨ slot.height ≠ image.height ∨ slot.pixels ≠ image.pixels then (none, cache)
    else (some i, { cache with
      slots := cache.slots.set i { slot with lastUse := cache.clock + 1 }, clock := cache.clock + 1 })

/-- The first slot with the smallest `lastUse`. -/
def leastRecent (slots : List GlyphSlot) : ℕ :=
  slots.zipIdx.foldl (fun best p => if p.1.lastUse < (slots.getD best {}).lastUse then p.2 else best) 0

def insert (cache : GlyphCache) (image : Image) : ℕ × GlyphCache :=
  let slots := if cache.slots = [] then List.replicate glyphCacheSize {} else cache.slots
  let room := decide (cache.used < slots.length)
  let victim := if room then cache.used else leastRecent slots
  let index :=
    if ¬ room ∧ cache.index.lookup (slots.getD victim {}).hash = some (victim % 2 ^ 16) then
      cache.index.erase (slots.getD victim {}).hash
    else cache.index
  let slot : GlyphSlot := ⟨image.pixels, image.width, image.height, hashOf image, cache.clock + 1⟩
  (victim % 2 ^ 16,
    { slots := slots.set victim slot
      index := index.insert (hashOf image) (victim % 2 ^ 16)
      used := if room then cache.used + 1 else cache.used
      clock := cache.clock + 1 })

end GlyphCache

/-! ### Areas and columns -/

/-- A rectangle of the region, half-open. -/
structure Area where
  x0 : ℕ
  x1 : ℕ
  y0 : ℕ
  y1 : ℕ
  deriving DecidableEq

namespace Area

def width (a : Area) : ℕ := a.x1 - a.x0
def height (a : Area) : ℕ := a.y1 - a.y0
def pixels (a : Area) : ℕ := a.width * a.height

def contains (a : Area) (x y : ℕ) : Bool := a.x0 ≤ x && x < a.x1 && a.y0 ≤ y && y < a.y1

end Area

variable (image : Image)

/-- The pixels of an area in raster order. -/
def Image.area (a : Area) : List Color :=
  (List.range a.pixels).map fun i => image.at_ (a.x0 + i % a.width) (a.y0 + i / a.width)

/-- One column of a band: the whole V-bar and the part of it that differs
from the background. -/
structure Column where
  pixels : List Color
  yOn : ℕ
  yOff : ℕ
  deriving DecidableEq

def Column.shortVbar (column : Column) : List Color := (column.pixels.drop column.yOn).take (column.yOff - column.yOn)

def loadColumn (x y0 y1 : ℕ) (background : Color) : Column :=
  let pixels := (List.range' y0 (y1 - y0)).map fun y => image.at_ x y
  let first := pixels.findIdx (· ≠ background)
  if first = pixels.length then ⟨pixels, 0, 0⟩
  else ⟨pixels, first, pixels.length - pixels.reverse.findIdx (· ≠ background)⟩

/-! ### What a layer costs -/

/-- Counts of the colours seen, and the first one to reach the highest. -/
structure Tally where
  counts : AList (fun _ : Color => ℕ) := ∅
  best : Color
  bestCount : ℕ := 0

def Tally.add (tally : Tally) (c : Color) (run : ℕ) : Tally :=
  let count := (tally.counts.lookup c).getD 0 + run
  let counts := tally.counts.insert c count
  if count > tally.bestCount then ⟨counts, c, count⟩ else { tally with counts := counts }

/-- Adds the runs of a row of pixels. -/
def Tally.addRow : ℕ → List Color → Tally → Tally
  | 0, _, tally => tally
  | _ + 1, [], tally => tally
  | fuel + 1, c :: rest, tally =>
    addRow fuel (rest.dropWhile (· == c)) (tally.add c (1 + (rest.takeWhile (· == c)).length))

def Image.areaRow (a : Area) (y : ℕ) : List Color :=
  (List.range' a.x0 a.width).map fun x => image.at_ x y

variable (area : Area)

/-- The most frequent colour of `area`. -/
def dominantColor : Color :=
  ((List.range' area.y0 area.height).foldl (fun tally y => tally.addRow area.width (image.areaRow area y))
    ({ best := image.at_ area.x0 area.y0 } : Tally)).best

/-- Roughly what `area` adds to the residual layer. -/
def residualCost (background : Color) : ℕ :=
  (List.range' area.y0 area.height).foldl
    (fun cost y =>
      ((image.areaRow area y).foldl
        (fun (p : ℕ × Color) c => if c ≠ p.2 then (p.1 + runSegmentSize, c) else p) (cost, background)).1)
    0

def backgroundColumn (y0 y1 : ℕ) (background : Color) (x : ℕ) : Bool :=
  (List.range' y0 (y1 - y0)).all fun y => image.at_ x y == background

/-- The bands cut so far, the start of the next one and the background columns since the last other one. -/
structure Cut where
  out : List Area := []
  start : ℕ
  gap : ℕ := 0
  deriving DecidableEq

/-- Cuts `area` into bands at runs of at least `minBandGap` background columns. -/
def splitBands (background : Color) : List Area :=
  let cut := (List.range' area.x0 area.width).foldl
    (fun (cut : Cut) x =>
      if !backgroundColumn image area.y0 area.y1 background x then
        if cut.gap ≥ minBandGap ∧ x - cut.gap > cut.start then
          ⟨cut.out ++ [⟨cut.start, x - cut.gap, area.y0, area.y1⟩], x, 0⟩
        else { cut with gap := 0 }
      else { cut with gap := cut.gap + 1 })
    { start := area.x0 }
  cut.out ++ [⟨cut.start, area.x1, area.y0, area.y1⟩]

/-- What the encoder keeps during one call: the caches, the columns seen, the
pixels that bands or subcodecs paint and the bytes of these two layers. -/
structure Work where
  vbars : ColumnCache
  shortVbars : ColumnCache
  seenVbars : List ℕ
  seenShortVbars : List ℕ
  covered : List Bool
  bands : List UInt8 := []
  subcodecs : List UInt8 := []

structure Costing where
  seenVbars : List ℕ
  seenShortVbars : List ℕ
  newVbars : List ℕ := []
  newShortVbars : List ℕ := []
  cost : ℕ := 0
  deriving DecidableEq

def Costing.addColumn (vbars shortVbars : ColumnCache) (s : Costing) (column : Column) : Costing :=
  let shortVbar := column.shortVbar
  let vbarHash := hashColors column.pixels 0
  let shortHash := hashColors shortVbar 0
  let recurring := vbarHash ∈ s.seenVbars ∨ shortHash ∈ s.seenShortVbars
  let s' := { s with seenVbars := s.seenVbars.insert vbarHash, seenShortVbars := s.seenShortVbars.insert shortHash }
  if (vbars.find column.pixels).isSome ∨ vbarHash ∈ s.newVbars then { s' with cost := s.cost + vbarHitSize }
  else
    let cost :=
      if shortVbar = [] then shortVbarMissSize
      else if (shortVbars.find shortVbar).isSome ∨ shortHash ∈ s.newShortVbars ∨ recurring then shortVbarHitSize
      else shortVbarMissSize + 3 * shortVbar.length
    { s' with
      newVbars := s.newVbars.insert vbarHash
      newShortVbars := s.newShortVbars.insert shortHash
      cost := s.cost + cost }

/-- The size of `bandAreas` as bands against the current caches; columns
costed before count like short V-bar hits. -/
def bandsCost (w : Work) (bandAreas : List Area) (background : Color) : ℕ × Work :=
  let s := bandAreas.foldl
    (fun (s : Costing) band =>
      (List.range' band.x0 band.width).foldl
        (fun s x => s.addColumn w.vbars w.shortVbars (loadColumn image x band.y0 band.y1 background))
        { s with cost := s.cost + bandHeaderSize })
    { seenVbars := w.seenVbars, seenShortVbars := w.seenShortVbars }
  if s.seenVbars.length > maxSeenColumns ∨ s.seenShortVbars.length > maxSeenColumns then
    (s.cost, { w with seenVbars := [], seenShortVbars := [] })
  else (s.cost, { w with seenVbars := s.seenVbars, seenShortVbars := s.seenShortVbars })

/-! ### The bands layer -/

/-- The two column caches, which a band changes as the client will. -/
structure Caches where
  vbars : ColumnCache
  shortVbars : ColumnCache

/-- One V-bar: a hit in either cache, or the short V-bar itself. -/
def writeColumn (caches : Caches) (column : Column) : List UInt8 × Caches :=
  match caches.vbars.find column.pixels with
  | some slot => (u16le (vbarCacheHit ||| slot), caches)
  | none =>
    let shortVbar := column.shortVbar
    match if shortVbar = [] then none else caches.shortVbars.find shortVbar with
    | some slot =>
      (u16le (shortVbarCacheHit ||| slot) ++ u8 column.yOn,
        { caches with vbars := caches.vbars.insert column.pixels })
    | none =>
      (u16le (column.yOff <<< 8 ||| column.yOn) ++ shortVbar.flatMap writeBgr,
        { vbars := caches.vbars.insert column.pixels, shortVbars := caches.shortVbars.insert shortVbar })

def writeColumns (y0 y1 : ℕ) (background : Color) : List ℕ → Caches → List UInt8 × Caches
  | [], caches => ([], caches)
  | x :: xs, caches =>
    let first := writeColumn caches (loadColumn image x y0 y1 background)
    let rest := writeColumns y0 y1 background xs first.2
    (first.1 ++ rest.1, rest.2)

/-- One CLEARCODEC_BAND, updating the caches as the client will. -/
def writeBand (background : Color) (band : Area) (caches : Caches) : List UInt8 × Caches :=
  let columns := writeColumns image band.y0 band.y1 background (List.range' band.x0 band.width) caches
  (u16le band.x0 ++ u16le (band.x1 - 1) ++ u16le band.y0 ++ u16le (band.y1 - 1) ++
    writeBgr background ++ columns.1, columns.2)

def writeBands : List (Color × Area) → Caches → List UInt8 × Caches
  | [], caches => ([], caches)
  | (background, band) :: bands, caches =>
    let first := writeBand image background band caches
    let rest := writeBands bands first.2
    (first.1 ++ rest.1, rest.2)

/-! ### The subcodecs layer -/

/-- Palette in order of first appearance and the index of each pixel in it. -/
def buildPalette : List Color → List Color → List ℕ → Option (List Color × List ℕ)
  | [], palette, indices => some (palette, indices)
  | c :: rest, palette, indices =>
    if c ∈ palette then buildPalette rest palette (indices ++ [palette.idxOf c])
    else if palette.length = maxPaletteSize then none
    else buildPalette rest (palette ++ [c]) (indices ++ [palette.length])

/-- How many indices after `stop` go on counting up, `depth` more at most. -/
def suiteLength (stop : ℕ) : ℕ → List ℕ → ℕ
  | depth + 1, i :: rest => if i = stop + 1 then 1 + suiteLength (stop + 1) depth rest else 0
  | _, _ => 0

/-- The segments of the indices, behind `w`; `none` above `limit` bytes. -/
def rlexSegments (indexBits limit : ℕ) : ℕ → List ℕ → List UInt8 → Option (List UInt8)
  | _, [], w => some w
  | 0, _, _ => none
  | fuel + 1, start :: rest, w =>
    let maxDepth := 2 ^ (8 - indexBits) - 1
    let run := (rest.takeWhile (· == start)).length
    let next := rest.drop run
    let depth := suiteLength start maxDepth next
    let stop := start + depth
    let w' := w ++ u8 (depth <<< indexBits ||| stop) ++ writeRunLength run
    if w'.length > limit then none else rlexSegments indexBits limit fuel (next.drop depth) w'

/-- An RLEX subcodec for `area`, or nothing if it has too many colours or
would be larger than the raw pixels. -/
def encodeRlex : Option (List UInt8) :=
  match buildPalette (image.area area) [] [] with
  | none => none
  | some (palette, indices) =>
    rlexSegments (rlexIndexBits palette.length) (3 * area.pixels) indices.length indices
      (u8 palette.length ++ palette.flatMap writeBgr)

/-- One CLEARCODEC_SUBCODEC. -/
def writeSubcodec (id : ℕ) (data : List UInt8) : List UInt8 :=
  u16le area.x0 ++ u16le area.y0 ++ u16le area.width ++ u16le area.height ++
    u32le data.length ++ u8 id ++ data

/-! ### Strips -/

inductive Layer where
  | residual
  | bands
  | rlex
  | raw
  deriving DecidableEq

/-- The cheapest layer, in the order of the source. -/
def chooseLayer (residual : ℕ) (candidates : List (Layer × ℕ)) : Layer :=
  (candidates.foldl (fun (best : Layer × ℕ) c => if c.2 < best.2 then c else best) (.residual, residual)).1

/-- Skips the background columns on the left of `[x0, x1)`. -/
def trimLeft (background : ℕ → Bool) (x1 : ℕ) : ℕ → ℕ → ℕ
  | 0, x0 => x0
  | fuel + 1, x0 => if x0 < x1 ∧ background x0 then trimLeft background x1 fuel (x0 + 1) else x0

/-- Skips the background columns on the right of `[x0, x1)`. -/
def trimRight (background : ℕ → Bool) (x0 : ℕ) : ℕ → ℕ → ℕ
  | 0, x1 => x1
  | fuel + 1, x1 => if x0 < x1 ∧ background (x1 - 1) then trimRight background x0 fuel (x1 - 1) else x1

def Work.cover (w : Work) (area : Area) : Work :=
  { w with covered := w.covered.mapIdx fun i c => c || area.contains (i % image.width) (i / image.width) }

/-- Bands of one background, each written and covered. -/
def Work.addBands (background : Color) : List Area → Work → Work
  | [], w => w
  | band :: bands, w =>
    let written := writeBand image background band ⟨w.vbars, w.shortVbars⟩
    addBands background bands
      ({ w with bands := w.bands ++ written.1, vbars := written.2.vbars, shortVbars := written.2.shortVbars }.cover
        image band)

def Work.addSubcodec (id : ℕ) (data : List UInt8) (w : Work) : Work :=
  { w with subcodecs := w.subcodecs ++ writeSubcodec area id data }.cover image area

/-- The rows `[y0, y1)` without the background columns around. -/
def stripArea (y0 y1 : ℕ) (background : Color) : Area :=
  let column := backgroundColumn image y0 y1 background
  let x0 := trimLeft column image.width image.width 0
  let x1 := trimRight column x0 image.width image.width
  ⟨x0, x1, y0, y1⟩

/-- Sends the rows `[y0, y1)` to the cheapest layer. -/
def encodeStrip (w : Work) (y0 y1 : ℕ) : Option Work :=
  let background := dominantColor image ⟨0, image.width, y0, y1⟩
  let area := stripArea image y0 y1 background
  -- the rows hold more than one colour
  if area.x0 < area.x1 then
    let bandAreas := splitBands image area background
    let residual := residualCost image area background
    let (banded, w) := bandsCost image w bandAreas background
    let rlex := encodeRlex image area
    let raw := subcodecHeaderSize + 3 * area.pixels
    let rlexCost := match rlex with
      | some data => subcodecHeaderSize + data.length
      | none => 2 ^ 64 - 1
    match chooseLayer residual [(.bands, banded), (.rlex, rlexCost), (.raw, raw)], rlex with
    | .residual, _ => some w
    | .bands, _ => some (w.addBands image background bandAreas)
    | .rlex, some data => some (w.addSubcodec image area subcodecRlex data)
    | .rlex, none => some w
    | .raw, _ => some (w.addSubcodec image area subcodecUncompressed ((image.area area).flatMap writeBgr))
  else none

def singleColor (y : ℕ) : Bool :=
  let row := image.row y
  row.all (· == row.headD 0)

/-- The end of the rows from `y` on that are not one colour. -/
def stripEnd : ℕ → ℕ → ℕ
  | 0, y => y
  | fuel + 1, y => if y < image.height ∧ !singleColor image y then stripEnd fuel (y + 1) else y

/-- The rows `[y, stop)` in strips of at most `maxBandHeight`. -/
def encodeRows (stop : ℕ) : ℕ → ℕ → Work → Option Work
  | 0, _, w => some w
  | fuel + 1, y, w =>
    if y < stop then
      match encodeStrip image w y (min (y + maxBandHeight) stop) with
      | none => none
      | some w => encodeRows stop fuel (y + min maxBandHeight (stop - y)) w
    else some w

/-- All strips from row `y` on; single-colour rows are the residual layer's. -/
def encodeStrips : ℕ → ℕ → Work → Option Work
  | 0, _, w => some w
  | fuel + 1, y, w =>
    if y < image.height then
      if singleColor image y then encodeStrips fuel (y + 1) w
      else
        let stop := stripEnd image image.height (y + 1)
        match encodeRows image stop image.height y w with
        | none => none
        | some w => encodeStrips fuel stop w
    else some w

/-! ### The residual layer -/

/-- The runs of what is left, after `run` pixels of the colour `current`. -/
def residualRuns : List (Color × Bool) → Color → ℕ → List UInt8
  | [], current, run => writeBgr current ++ writeRunLength run
  | (c, covered) :: rest, current, run =>
    if covered = false ∧ c ≠ current then writeBgr current ++ writeRunLength run ++ residualRuns rest c 1
    else residualRuns rest current (run + 1)

/-- Runs that cover every pixel; one that a later layer paints takes the
colour of the current run. Empty if later layers paint everything. -/
def encodeResidual (covered : List Bool) : List UInt8 :=
  let first := covered.findIdx (· == false)
  if first = covered.length then []
  else residualRuns (image.pixels.zip covered) (image.pixels.getD first 0) 0

/-! ### Streams -/

structure Encoder where
  vbars : ColumnCache := { capacity := vbarCacheSize }
  shortVbars : ColumnCache := { capacity := shortVbarCacheSize }
  glyphs : GlyphCache := {}
  seenVbars : List ℕ := []
  seenShortVbars : List ℕ := []
  sequence : ℕ := 0
  cacheResetPending : Bool := true

namespace Encoder

variable (s : Encoder)

/-- Starts a new codec context. -/
def reset : Encoder :=
  { vbars := s.vbars.clear, shortVbars := s.shortVbars.clear }

/-- The three layers behind their byte counts. -/
def encodeComposite (image : Image) : Option (List UInt8 × Encoder) :=
  let w : Work :=
    { vbars := s.vbars, shortVbars := s.shortVbars, seenVbars := s.seenVbars, seenShortVbars := s.seenShortVbars
      covered := List.replicate image.pixels.length false }
  match encodeStrips image image.height 0 w with
  | none => none
  | some w =>
    let residual := encodeResidual image w.covered
    some (u32le residual.length ++ u32le w.bands.length ++ u32le w.subcodecs.length ++
        residual ++ w.bands ++ w.subcodecs,
      { s with
        vbars := w.vbars, shortVbars := w.shortVbars, seenVbars := w.seenVbars, seenShortVbars := w.seenShortVbars })

/-- What the glyph cache says of an image: its index and whether it was there. -/
def lookupGlyph (image : Image) (glyphCache : Bool) : Option (ℕ × Bool) × Encoder :=
  if glyphCache ∧ image.pixels.length ≤ maxGlyphPixels then
    match s.glyphs.find image with
    | (some i, glyphs) => (some (i, true), { s with glyphs := glyphs })
    | (none, glyphs) =>
      let (i, glyphs) := glyphs.insert image
      (some (i, false), { s with glyphs := glyphs })
  else (none, s)

/-- Encodes `region` into one stream; `glyphCache` is the only option. -/
def encode (region : ImageView) (glyphCache : Bool) : Option (List UInt8 × Encoder) :=
  if h : region.Valid then
    let image := load region h
    let resetFlag := if s.cacheResetPending then flagCacheReset else 0
    let (glyph, s') := { s with cacheResetPending := false }.lookupGlyph image glyphCache
    let s'' := { s' with sequence := (s.sequence + 1) % 256 }
    match glyph with
    | some (i, true) =>
      some (u8 (resetFlag ||| flagGlyphIndex ||| flagGlyphHit) ++ u8 s.sequence ++ u16le i, s'')
    | some (i, false) =>
      match s''.encodeComposite image with
      | none => none
      | some (composite, s'') =>
        some (u8 (resetFlag ||| flagGlyphIndex) ++ u8 s.sequence ++ u16le i ++ composite, s'')
    | none =>
      match s''.encodeComposite image with
      | none => none
      | some (composite, s'') => some (u8 resetFlag ++ u8 s.sequence ++ composite, s'')
  else none

end Encoder

end Clear
end Codec
end Farland
