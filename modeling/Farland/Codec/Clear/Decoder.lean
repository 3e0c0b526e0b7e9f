/-
# The ClearCodec decoder

`clear_decoder.cpp`: one bitmap stream painted onto the caller's bytes, layer
by layer, with the storages the client keeps between streams. After an error
the context is unusable, so a failed call returns the error alone. An access
outside a storage and a failed assertion have no result (`none`).
-/
import Farland.Codec.Clear.Wire

namespace Farland
namespace Codec
namespace Clear

open Reader RasterCursor

/-- An entry of a storage. -/
structure Entry where
  pixels : List Color := []
  used : Bool := false
  deriving DecidableEq

structure Decoder where
  sequence : ℕ := 0
  vbars : List Entry := []
  shortVbars : List Entry := []
  vbarCursor : ℕ := 0
  shortVbarCursor : ℕ := 0
  glyphs : List Entry := []
  deriving DecidableEq

/-! ### The residual layer -/

/-- The runs that are left; each turn reads at least one byte. -/
def decodeResidualRuns (t : Target) : ℕ → Reader → ℕ → RasterCursor × List UInt8 → Result (List UInt8)
  | 0, r, _, _ => fail .truncated "unexpected end of input" r.offset
  | fuel + 1, r, painted, p =>
    if r.empty then
      if painted ≠ t.pixels then
        fail .invalidLength "ClearCodec residual runs do not cover the bitmap" r.offset
      else .ok p.2
    else
      match readBgr r with
      | .error e => .error e
      | .ok (c, r₁) =>
        match readRunLength r₁ with
        | .error e => .error e
        | .ok (run, r₂) =>
          if run = 0 then fail .invalidValue "ClearCodec residual run length is 0" r.offset
          else if run > t.pixels - painted then
            fail .invalidLength "ClearCodec residual runs overrun the bitmap" r.offset
          else decodeResidualRuns t fuel r₂ (painted + run) (fill t p c run)

/-- CLEARCODEC_RESIDUAL_DATA; the runs must cover the rectangle exactly. -/
def decodeResidual (r : Reader) (t : Target) (out : List UInt8) : Result (List UInt8) :=
  decodeResidualRuns t (r.remaining + 1) r 0 ({ x0 := 0, y0 := 0, width := t.width }, out)

/-! ### The bands layer -/

variable (s : Decoder)

/-- A short V-bar and where it starts, from its storage or from the stream. -/
def decodeShortVbar (r : Reader) (headerAt header height : ℕ) : Option (Result (ℕ × List Color × Decoder × Reader)) :=
  if header &&& 0xC000 = 0x4000 then
    match u8 r with
    | .error e => some (.error e)
    | .ok (yOn, r') =>
      match s.shortVbars[header &&& 0x3FFF]? with
      | none => none
      | some entry =>
        if !entry.used then
          some (fail .invalidValue "ClearCodec SHORT_VBAR_CACHE_HIT names an empty entry" headerAt)
        else if yOn > height ∨ entry.pixels.length > height - yOn then
          some (fail .invalidValue "ClearCodec short V-bar does not fit in the band" headerAt)
        else some (.ok (yOn, entry.pixels, s, r'))
  else
    -- shortVBarYOn in the low byte, shortVBarYOff in the next 6 bits
    let yOn := header &&& 0xFF
    let yOff := header >>> 8 &&& 0x3F
    if yOff < yOn ∨ yOff > height then
      some (fail .invalidValue "ClearCodec short V-bar does not fit in the band" headerAt)
    else
      match s.shortVbars[s.shortVbarCursor]? with
      | none => none
      | some _ =>
        match readMany readBgr (yOff - yOn) r with
        | .error e => some (.error e)
        | .ok (pixels, r') =>
          some (.ok (yOn, pixels,
            { s with
              shortVbars := s.shortVbars.set s.shortVbarCursor ⟨pixels, true⟩
              shortVbarCursor := (s.shortVbarCursor + 1) % shortVbarCacheSize }, r'))

/-- One V-bar of a band. -/
def decodeVbar (r : Reader) (height : ℕ) (background : Color) : Option (Result (List Color × Decoder × Reader)) :=
  match u16le r with
  | .error e => some (.error e)
  | .ok (header, r') =>
    if header &&& 0x8000 ≠ 0 then
      match s.vbars[header &&& 0x7FFF]? with
      | none => none
      | some entry =>
        if !entry.used ∨ entry.pixels.length ≠ height then
          some (fail .invalidValue "ClearCodec VBAR_CACHE_HIT names no V-bar of the band's height" r.offset)
        else some (.ok (entry.pixels, s, r'))
    else
      match decodeShortVbar s r' r.offset header height with
      | none => none
      | some (.error e) => some (.error e)
      | some (.ok (yOn, pixels, s', r'')) =>
        -- both short forms store the whole V-bar at the cursor
        let column := Ring.overwrite (List.replicate height background) yOn pixels
        match s'.vbars[s'.vbarCursor]? with
        | none => none
        | some _ =>
          some (.ok (column,
            { s' with
              vbars := s'.vbars.set s'.vbarCursor ⟨column, true⟩
              vbarCursor := (s'.vbarCursor + 1) % vbarCacheSize }, r''))

/-- Paints a column downwards from `(x, y)`. -/
def paintColumn (t : Target) (x : ℕ) : ℕ → List Color → List UInt8 → List UInt8
  | _, [], out => out
  | y, c :: rest, out => paintColumn t x (y + 1) rest (t.put out x y c)

def decodeVbars (t : Target) (yStart height : ℕ) (background : Color) :
    List ℕ → Decoder → Reader → List UInt8 → Option (Result (Decoder × Reader × List UInt8))
  | [], s, r, out => some (.ok (s, r, out))
  | x :: xs, s, r, out =>
    match decodeVbar s r height background with
    | none => none
    | some (.error e) => some (.error e)
    | some (.ok (vbar, s', r')) =>
      decodeVbars t yStart height background xs s' r' (paintColumn t x yStart vbar out)

/-- xStart, xEnd, yStart, yEnd and the background of a band. -/
def readBandHeader : Parse (ℕ × ℕ × ℕ × ℕ × Color) := do
  let xStart ← u16le
  let xEnd ← u16le
  let yStart ← u16le
  let yEnd ← u16le
  let background ← readBgr
  pure (xStart, xEnd, yStart, yEnd, background)

/-- One CLEARCODEC_BAND and its V-bars. -/
def decodeBand (r : Reader) (t : Target) (out : List UInt8) : Option (Result (Decoder × Reader × List UInt8)) :=
  match readBandHeader r with
  | .error e => some (.error e)
  | .ok ((xStart, xEnd, yStart, yEnd, background), r') =>
    if xEnd < xStart ∨ yEnd < yStart then
      some (fail .invalidValue "ClearCodec band ends before it starts" r.offset)
    else if xEnd ≥ t.width ∨ yEnd ≥ t.height then
      some (fail .invalidValue "ClearCodec band lies outside the bitmap" r.offset)
    else
      let height := yEnd - yStart + 1
      if height > maxBandHeight then
        some (fail .invalidValue "ClearCodec band is higher than 52 pixels" r.offset)
      else decodeVbars t yStart height background (List.range' xStart (xEnd - xStart + 1)) s r' out

def decodeBandsLoop (t : Target) : ℕ → Decoder → Reader → List UInt8 → Option (Result (Decoder × List UInt8))
  | 0, _, r, _ => some (fail .truncated "unexpected end of input" r.offset)
  | fuel + 1, s, r, out =>
    if r.empty then some (.ok (s, out))
    else
      match decodeBand s r t out with
      | none => none
      | some (.error e) => some (.error e)
      | some (.ok (s', r', out')) => decodeBandsLoop t fuel s' r' out'

/-- `vector::resize` to the size of a storage. -/
def resize (storage : List Entry) (size : ℕ) : List Entry :=
  storage.take size ++ List.replicate (size - storage.length) ⟨[], false⟩

theorem resize_length (storage : List Entry) (size : ℕ) : (resize storage size).length = size := by
  simp only [resize, List.length_append, List.length_take, List.length_replicate]
  omega

/-- The V-bar storages are allocated on first use. -/
def Decoder.allocateVbars : Decoder :=
  if s.vbars = [] then
    { s with vbars := resize s.vbars vbarCacheSize, shortVbars := resize s.shortVbars shortVbarCacheSize }
  else s

/-- CLEARCODEC_BANDS_DATA. -/
def decodeBands (r : Reader) (t : Target) (out : List UInt8) : Option (Result (Decoder × List UInt8)) :=
  decodeBandsLoop t (r.remaining + 1) s.allocateVbars r out

/-! ### The subcodecs layer -/

def decodeRlexSegments (t : Target) (palette : List Color) (indexBits pixels : ℕ) :
    ℕ → Reader → ℕ → RasterCursor × List UInt8 → Result (List UInt8)
  | 0, r, _, _ => fail .truncated "unexpected end of input" r.offset
  | fuel + 1, r, painted, p =>
    if r.empty then
      if painted ≠ pixels then
        fail .invalidLength "ClearCodec RLEX segments do not cover the subcodec" r.offset
      else .ok p.2
    else
      match u8 r with
      | .error e => .error e
      | .ok (packed, r₁) =>
        match readRunLength r₁ with
        | .error e => .error e
        | .ok (run, r₂) =>
          let stop := packed &&& (2 ^ indexBits - 1)
          let depth := packed >>> indexBits
          if stop ≥ palette.length ∨ depth > stop then
            fail .invalidValue "ClearCodec RLEX suite leaves the palette" r.offset
          else if run > pixels - painted ∨ depth + 1 > pixels - painted - run then
            fail .invalidLength "ClearCodec RLEX segments overrun the subcodec" r.offset
          else
            let start := stop - depth
            let p₁ := fill t p (palette.getD start 0) run
            let suite := (List.range' start (depth + 1)).map fun i => palette.getD i 0
            decodeRlexSegments t palette indexBits pixels fuel r₂ (painted + (run + depth + 1))
              (paintAll t p₁ suite)

/-- CLEARCODEC_SUBCODEC_RLEX; the segments must cover the sub-rectangle exactly. -/
def decodeRlex (r : Reader) (t : Target) (x0 y0 width height : ℕ) (out : List UInt8) : Result (List UInt8) :=
  match u8 r with
  | .error e => .error e
  | .ok (paletteCount, r₁) =>
    if paletteCount = 0 ∨ paletteCount > maxPaletteSize then
      fail .invalidValue "ClearCodec RLEX paletteCount is not 1..127" r.offset
    else
      match readMany readBgr paletteCount r₁ with
      | .error e => .error e
      | .ok (palette, r₂) =>
        decodeRlexSegments t palette (rlexIndexBits paletteCount) (width * height) (r₂.remaining + 1) r₂ 0
          ({ x0 := x0, y0 := y0, width := width }, out)

/-- xStart, yStart, width, height, bitmapDataByteCount and subCodecId. -/
def readSubcodecHeader : Parse (ℕ × ℕ × ℕ × ℕ × ℕ × ℕ) := do
  let xStart ← u16le
  let yStart ← u16le
  let width ← u16le
  let height ← u16le
  let byteCount ← u32le
  let id ← u8
  pure (xStart, yStart, width, height, byteCount, id)

/-- One CLEARCODEC_SUBCODEC. -/
def decodeSubcodec (r : Reader) (t : Target) (out : List UInt8) : Result (Reader × List UInt8) :=
  match readSubcodecHeader r with
  | .error e => .error e
  | .ok ((xStart, yStart, width, height, byteCount, id), r₁) =>
    if xStart + width > t.width ∨ yStart + height > t.height then
      fail .invalidValue "ClearCodec subcodec lies outside the bitmap" r.offset
    else
      let rawSize := 3 * width * height
      if byteCount > rawSize then
        fail .invalidLength "ClearCodec subcodec bitmapDataByteCount exceeds 3 * width * height" r.offset
      else
        match sub byteCount r₁ with
        | .error e => .error e
        | .ok (data, r₂) =>
          if id = subcodecUncompressed then
            if byteCount ≠ rawSize then
              fail .invalidLength "ClearCodec uncompressed subcodec has the wrong size" r.offset
            else
              match readMany readBgr (width * height) data with
              | .error e => .error e
              | .ok (colors, _) =>
                .ok (r₂, (paintAll t ({ x0 := xStart, y0 := yStart, width := width }, out) colors).2)
          else if id = subcodecNscodec then
            fail .unsupported "ClearCodec NSCodec subcodec is not supported" r.offset
          else if id = subcodecRlex then
            match decodeRlex data t xStart yStart width height out with
            | .error e => .error e
            | .ok out' => .ok (r₂, out')
          else fail .invalidValue "unknown ClearCodec subCodecId" r.offset

/-- CLEARCODEC_SUBCODECS_DATA. -/
def decodeSubcodecs (t : Target) : ℕ → Reader → List UInt8 → Result (List UInt8)
  | 0, r, _ => fail .truncated "unexpected end of input" r.offset
  | fuel + 1, r, out =>
    if r.empty then .ok out
    else
      match decodeSubcodec r t out with
      | .error e => .error e
      | .ok (r', out') => decodeSubcodecs t fuel r' out'

/-! ### Streams -/

/-- The three layers of a composite payload. -/
structure Layers where
  residual : Reader
  bands : Reader
  subcodecs : Reader
  deriving DecidableEq

def readLayers : Parse Layers := do
  let residualCount ← u32le
  let bandsCount ← u32le
  let subcodecCount ← u32le
  let residual ← sub residualCount
  let bands ← sub bandsCount
  let subcodecs ← sub subcodecCount
  expectEnd "ClearCodec bitmap stream has trailing data"
  pure ⟨residual, bands, subcodecs⟩

/-- CLEARCODEC_COMPOSITE_PAYLOAD: a layer with no bytes is absent. -/
def decodeComposite (r : Reader) (t : Target) (out : List UInt8) : Option (Result (Decoder × List UInt8)) :=
  match readLayers r with
  | .error e => some (.error e)
  | .ok (layers, _) =>
    match if layers.residual.remaining ≠ 0 then decodeResidual layers.residual t out else .ok out with
    | .error e => some (.error e)
    | .ok out₁ =>
      match decodeBands s layers.bands t out₁ with
      | none => none
      | some (.error e) => some (.error e)
      | some (.ok (s', out₂)) =>
        match decodeSubcodecs t (layers.subcodecs.remaining + 1) layers.subcodecs out₂ with
        | .error e => some (.error e)
        | .ok out₃ => some (.ok (s', out₃))

/-- What the rectangle holds, in raster order. -/
def Target.read (t : Target) (out : List UInt8) : List Color :=
  (List.range t.pixels).map fun i => t.get out (i % t.width) (i / t.width)

/-- The glyph storage is allocated on first use. -/
def Decoder.allocateGlyphs : Decoder :=
  if s.glyphs = [] then { s with glyphs := resize s.glyphs glyphCacheSize } else s

/-- The glyph of a stream: replayed, or stored once the layers are painted. -/
def decodeGlyph (r : Reader) (t : Target) (hit : Bool) (out : List UInt8) : Option (Result (Decoder × List UInt8)) :=
  if t.pixels > maxGlyphPixels then
    some (fail .invalidValue "ClearCodec glyph is larger than 1024 pixels" 0)
  else
    match u16le r with
    | .error e => some (.error e)
    | .ok (index, r') =>
      if index ≥ glyphCacheSize then
        some (fail .invalidValue "ClearCodec glyphIndex is above 3999" r.offset)
      else
        let s := s.allocateGlyphs
        match s.glyphs[index]? with
        | none => none
        | some glyph =>
          if hit then
            if !glyph.used ∨ glyph.pixels.length < t.pixels then
              some (fail .invalidValue "ClearCodec glyph hit names no glyph of that size" r.offset)
            else
              match expectEnd "ClearCodec glyph hit has a compositePayload" r' with
              | .error e => some (.error e)
              | .ok _ =>
                some (.ok (s, (paintAll t ({ x0 := 0, y0 := 0, width := t.width }, out)
                  (glyph.pixels.take t.pixels)).2))
          else
            match decodeComposite s r' t out with
            | none => none
            | some (.error e) => some (.error e)
            | some (.ok (s', out')) =>
              some (.ok ({ s' with glyphs := s'.glyphs.set index ⟨t.read out', true⟩ }, out'))

def knownFlags : ℕ := flagGlyphIndex ||| flagGlyphHit ||| flagCacheReset

/-- The flags and the sequence number, and the context behind them. -/
def readStreamHeader (r : Reader) : Result (ℕ × Decoder × Reader) :=
  match u8 r with
  | .error e => .error e
  | .ok (flags, r₁) =>
    match u8 r₁ with
    | .error e => .error e
    | .ok (sequence, r₂) =>
      if flags &&& (0xFF ^^^ knownFlags) ≠ 0 then
        fail .invalidValue "ClearCodec flags has unknown bits" 0
      else if sequence ≠ s.sequence then
        fail .invalidValue "ClearCodec seqNumber is out of sequence" 1
      else
        let s' := { s with sequence := (sequence + 1) % 256 }
        let s'' := if flags &&& flagCacheReset ≠ 0 then { s' with vbarCursor := 0, shortVbarCursor := 0 } else s'
        if flags &&& flagGlyphHit ≠ 0 ∧ flags &&& flagGlyphIndex = 0 then
          fail .invalidValue "ClearCodec CLEARCODEC_FLAG_GLYPH_HIT without GLYPH_INDEX" 0
        else .ok (flags, s'', r₂)

/-- Decodes one CLEARCODEC_BITMAP_STREAM for a width x height rectangle. -/
def Decoder.decode (stream : List UInt8) (width height : ℕ) (out : List UInt8) (stride : ℕ) :
    Option (Result (Decoder × List UInt8)) :=
  if width = 0 ∨ height = 0 then some (fail .invalidValue "ClearCodec bitmap has no pixels")
  else if width > maxDimension ∨ height > maxDimension then
    some (fail .limitExceeded "ClearCodec bitmap exceeds clear::max_dimension")
  else
    let t : Target := ⟨stride, width, height⟩
    if t.Valid out then
      match readStreamHeader s ⟨stream, 0⟩ with
      | .error e => some (.error e)
      | .ok (flags, s', r) =>
        if flags &&& flagGlyphIndex ≠ 0 then decodeGlyph s' r t (flags &&& flagGlyphHit ≠ 0) out
        else decodeComposite s' r t out
    else none

end Clear
end Codec
end Farland
