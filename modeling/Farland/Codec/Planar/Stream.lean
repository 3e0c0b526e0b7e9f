/-
# The planar bitmap stream

RDP 6.0 planar bitmaps (`codec/planar.cpp`): a header, then one plane for each
of red, green and blue (and alpha when the stream has it), raw or RLE. An RLE
plane codes every scanline on its own as segments, the first as values and the
others as deltas to the one above.

A plane is here the list of its scanlines, in the stream's order; the source
keeps it in one buffer. `none` is a failed assertion of the encoder.
-/
import Farland.Codec.Clear.Wire

namespace Farland
namespace Codec
namespace Planar

open Reader

open Clear (ImageView)

/-! ### The format -/

def headerCllMask : ℕ := 0x07
def headerCs : ℕ := 0x08
def headerRle : ℕ := 0x10
def headerNa : ℕ := 0x20

def bytesPerPixel : ℕ := 4
def offsetB : ℕ := 0
def offsetG : ℕ := 1
def offsetR : ℕ := 2

def maxRawCount : ℕ := 15
def maxShortRun : ℕ := 15
def minRun : ℕ := 3
def runEscape16 : ℕ := 1
def runEscape32 : ℕ := 2
def maxRun : ℕ := 32 + 15

/-- Largest width or height either direction accepts. -/
def maxDimension : ℕ := 8192

inductive Orientation where
  | topDown | bottomUp
  deriving DecidableEq

inductive Mode where
  | raw | rle | automatic
  deriving DecidableEq

/-- cRawBytes in the high nibble and nRunLength in the low one. -/
def controlByte (rawCount runNibble : ℕ) : Option UInt8 :=
  if rawCount ≤ 0x0F ∧ runNibble ≤ 0x0F then some (UInt8.ofNat (rawCount <<< 4 ||| runNibble)) else none

structure Segment where
  rawCount : ℕ
  run : ℕ
  deriving DecidableEq

/-- Run nibbles 1 and 2 are escapes for longer runs without raw values. -/
def parseControlByte (control : ℕ) : Segment :=
  if control &&& 0x0F = runEscape16 then ⟨0, 16 + control >>> 4⟩
  else if control &&& 0x0F = runEscape32 then ⟨0, 32 + control >>> 4⟩
  else ⟨control >>> 4, control &&& 0x0F⟩

/-- The difference to the value above in sign-magnitude form, the sign in bit 0. -/
def deltaToWire (value above : UInt8) : UInt8 :=
  if (value - above).toNat < 0x80 then UInt8.ofNat ((value - above).toNat <<< 1)
  else UInt8.ofNat ((0x100 - (value - above).toNat) <<< 1 - 1)

/-- What to add to the value above. -/
def wireToDelta (wire : UInt8) : UInt8 :=
  if wire.toNat &&& 1 = 0 then UInt8.ofNat (wire.toNat >>> 1) else UInt8.ofNat (0x100 - (wire.toNat >>> 1 + 1))

/-- Maps the stream's scanlines to rows of the top-down image. -/
structure Geometry where
  width : ℕ
  height : ℕ
  orientation : Orientation
  deriving DecidableEq

namespace Geometry

def pixels (g : Geometry) : ℕ := g.width * g.height

def imageRow (g : Geometry) (scanline : ℕ) : ℕ :=
  match g.orientation with
  | .bottomUp => g.height - 1 - scanline
  | .topDown => scanline

end Geometry

/-! ### The encoder -/

variable (image : ImageView)

/-- One byte of the pixel at `(x, y)`. -/
def sample (x y channel : ℕ) : UInt8 :=
  image.data.getD (y * image.stride + x * bytesPerPixel + channel) 0

def plane (g : Geometry) (channel : ℕ) : List (List UInt8) :=
  (List.range g.height).map fun scanline =>
    (List.range g.width).map fun x => sample image x (g.imageRow scanline) channel

/-- Red, green and blue, in the stream's order. -/
def splitPlanes (g : Geometry) : List (List (List UInt8)) :=
  [plane image g offsetR, plane image g offsetG, plane image g offsetB]

def rawStreamSize (g : Geometry) : ℕ := 1 + 3 * g.pixels + 1

variable (planes : List (List (List UInt8)))

/-- Header, raw planes and the pad. -/
def encodeRaw : List UInt8 :=
  UInt8.ofNat headerNa :: (planes.flatMap List.flatten ++ [0])

/-- How long the next segment of a run without raw values is; never is a rest
left that no segment can express. -/
def runPiece (run : ℕ) : ℕ :=
  if 0 < run - min run maxRun ∧ run - min run maxRun < minRun then run - minRun else min run maxRun

def runSegment (piece : ℕ) : Option UInt8 :=
  if 32 ≤ piece then controlByte (piece - 32) runEscape32
  else if 16 ≤ piece then controlByte (piece - 16) runEscape16
  else controlByte 0 piece

/-- A piece is not empty, so the run bounds the rounds. -/
def writeRunsLoop : ℕ → ℕ → Option (List UInt8)
  | _, 0 => some []
  | 0, _ + 1 => none
  | fuel + 1, run + 1 => do
    asserts (minRun ≤ run + 1)
    let control ← runSegment (runPiece (run + 1))
    let rest ← writeRunsLoop fuel (run + 1 - runPiece (run + 1))
    pure (control :: rest)

def writeRuns (run : ℕ) : Option (List UInt8) := writeRunsLoop run run

/-- The part of a run that the segment with the raw values holds. -/
def inlineRun (run : ℕ) : ℕ :=
  if run ≤ maxShortRun then run else if minRun ≤ run - maxShortRun then maxShortRun else run - minRun

/-- The last raw values and the run. -/
def writeLastSegments (raw : List UInt8) (run : ℕ) : Option (List UInt8) :=
  if raw = [] then writeRuns run
  else do
    let control ← controlByte raw.length (inlineRun run)
    let rest ← writeRuns (run - inlineRun run)
    pure (control :: raw ++ rest)

/-- Full segments first; every one takes raw values, so their number bounds the rounds. -/
def writeSegmentsLoop : ℕ → List UInt8 → ℕ → Option (List UInt8)
  | 0, raw, run => writeLastSegments raw run
  | fuel + 1, raw, run =>
    if maxRawCount < raw.length then do
      let control ← controlByte maxRawCount 0
      let rest ← writeSegmentsLoop fuel (raw.drop maxRawCount) run
      pure (control :: raw.take maxRawCount ++ rest)
    else writeLastSegments raw run

/-- Raw values, then a run of the last of them. -/
def writeSegments (raw : List UInt8) (run : ℕ) : Option (List UInt8) := do
  asserts (run = 0 ∨ minRun ≤ run)
  writeSegmentsLoop raw.length raw run

/-- The groups of equal symbols from the front of `symbols` on; `pending` are
the raw values before it that are not written yet, and `first` says that
nothing stands before. -/
def writeRleScanlineLoop : ℕ → Bool → List UInt8 → List UInt8 → Option (List UInt8)
  | _, _, pending, [] => if pending = [] then some [] else writeSegments pending 0
  | 0, _, _, _ :: _ => none
  | fuel + 1, first, pending, symbol :: symbols =>
    let length := (symbols.takeWhile (· == symbol)).length + 1
    if first && symbol == 0 && decide (minRun ≤ length) then do
      let segments ← writeSegments [] length
      let rest ← writeRleScanlineLoop fuel false [] ((symbol :: symbols).drop length)
      pure (segments ++ rest)
    else if minRun < length then do
      let segments ← writeSegments (pending ++ [symbol]) (length - 1)
      let rest ← writeRleScanlineLoop fuel false [] ((symbol :: symbols).drop length)
      pure (segments ++ rest)
    else
      writeRleScanlineLoop fuel false (pending ++ (symbol :: symbols).take length) ((symbol :: symbols).drop length)

def writeRleScanline (symbols : List UInt8) : Option (List UInt8) :=
  writeRleScanlineLoop symbols.length true [] symbols

/-- The symbols of a scanline: the values of the first, deltas of the others. -/
def symbolsOf (above : Option (List UInt8)) (row : List UInt8) : List UInt8 :=
  match above with
  | none => row
  | some above => List.zipWith deltaToWire row above

def encodeRlePlane : Option (List UInt8) → List (List UInt8) → Option (List UInt8)
  | _, [] => some []
  | above, row :: rows => do
    let scanline ← writeRleScanline (symbolsOf above row)
    let rest ← encodeRlePlane (some row) rows
    pure (scanline ++ rest)

def encodeRlePlanes : List (List (List UInt8)) → Option (List UInt8)
  | [] => some []
  | plane :: planes => do
    let first ← encodeRlePlane none plane
    let rest ← encodeRlePlanes planes
    pure (first ++ rest)

/-- Header and RLE planes; no pad. -/
def encodeRle : Option (List UInt8) := do
  let planes ← encodeRlePlanes planes
  pure (UInt8.ofNat (headerNa ||| headerRle) :: planes)

/-- What `encode` asserts of the image. -/
def Valid : Prop :=
  (1 ≤ image.width ∧ image.width ≤ maxDimension) ∧ (1 ≤ image.height ∧ image.height ≤ maxDimension) ∧
    image.width * bytesPerPixel ≤ image.stride ∧ image.width * bytesPerPixel ≤ image.data.length ∧
    image.height - 1 ≤ (image.data.length - image.width * bytesPerPixel) / image.stride

instance (image : ImageView) : Decidable (Valid image) := inferInstanceAs (Decidable (_ ∧ _))

def encodeWith (g : Geometry) : Mode → Option (List UInt8)
  | .raw => some (encodeRaw planes)
  | .rle => encodeRle planes
  | .automatic => do
    let rle ← encodeRle planes
    pure (if rawStreamSize g < rle.length then encodeRaw planes else rle)

def encode (mode : Mode) (orientation : Orientation) : Option (List UInt8) := do
  asserts (Valid image)
  encodeWith (splitPlanes image ⟨image.width, image.height, orientation⟩) ⟨image.width, image.height, orientation⟩ mode

/-! ### The decoder -/

/-- What a symbol adds to the value above. -/
def addend (first : Bool) (symbol : UInt8) : UInt8 := if first then symbol else wireToDelta symbol

/-- The segments of a scanline of which `left` values are missing, as what they
add; a run repeats `last`. Every segment is at least a byte, so the bytes bound
the rounds. -/
def decodeSegments (first : Bool) : ℕ → UInt8 → ℕ → Parse (List UInt8)
  | _, _, 0 => pure []
  | 0, _, _ + 1 => Parse.fail .truncated "unexpected end of input" 0
  | fuel + 1, last, left + 1 => do
    let start ← at_
    let control ← u8
    let segment := parseControlByte control
    if left + 1 < segment.rawCount + segment.run then
      Parse.fail .invalidLength "planar RLE segment overruns the scanline" start
    else do
      let raw ← bytes segment.rawCount
      let values := raw.map (addend first)
      let last := values.getLast?.getD last
      let rest ← decodeSegments first fuel last (left + 1 - (segment.rawCount + segment.run))
      pure (values ++ List.replicate segment.run last ++ rest)

/-- A scanline; the one above is what the source reads back from its output. -/
def decodeRleScanline (above : Option (List UInt8)) (width : ℕ) : Parse (List UInt8) := do
  let left ← left
  let values ← decodeSegments above.isNone (left + 1) 0 width
  pure (match above with
    | none => values
    | some above => List.zipWith (· + ·) above values)

def decodeRlePlane (width : ℕ) : Option (List UInt8) → ℕ → Parse (List (List UInt8))
  | _, 0 => pure []
  | above, height + 1 => do
    let row ← decodeRleScanline above width
    let rows ← decodeRlePlane width (some row) height
    pure (row :: rows)

def decodeRawPlane (width height : ℕ) : Parse (List (List UInt8)) := readMany (bytes width) height

def decodePlane (rle : Bool) (g : Geometry) : Parse (List (List UInt8)) :=
  if rle then decodeRlePlane g.width none g.height else decodeRawPlane g.width g.height

def planeSample (plane : List (List UInt8)) (scanline x : ℕ) : UInt8 := (plane.getD scanline []).getD x 0

/-- The top-down image in memory order B, G, R, A; the map from scanlines to
rows is its own inverse. -/
def assemble (g : Geometry) (alpha : Option (List (List UInt8))) (red green blue : List (List UInt8)) : List UInt8 :=
  (List.range g.height).flatMap fun y => (List.range g.width).flatMap fun x =>
    [planeSample blue (g.imageRow y) x, planeSample green (g.imageRow y) x, planeSample red (g.imageRow y) x,
      match alpha with
      | some alpha => planeSample alpha (g.imageRow y) x
      | none => 0xFF]

/-- The alpha plane, absent with NA. -/
def decodeAlpha (hasAlpha rle : Bool) (g : Geometry) : Parse (Option (List (List UInt8))) :=
  if hasAlpha then some <$> decodePlane rle g else pure none

/-- One optional byte, only after raw planes. -/
def skipPad (rle : Bool) : Parse Unit := do
  let left ← left
  if !rle && left == 1 then skip 1 else pure ()

def decodeStream (g : Geometry) : Parse (List UInt8) := do
  let header ← u8
  if header &&& headerCllMask ≠ 0 then
    Parse.fail .unsupported "planar color loss reduction (YCoCg) is not supported" 0
  else if header &&& headerCs ≠ 0 then Parse.fail .unsupported "planar chroma subsampling is not supported" 0
  else do
    let rle := header &&& headerRle != 0
    let alpha ← decodeAlpha (header &&& headerNa == 0) rle g
    let red ← decodePlane rle g
    let green ← decodePlane rle g
    let blue ← decodePlane rle g
    skipPad rle
    expectEnd "planar bitmap stream has trailing data"
    pure (assemble g alpha red green blue)

def decode (stream : List UInt8) (width height : ℕ) (orientation : Orientation) : Result (List UInt8) :=
  if width = 0 ∨ height = 0 then fail .invalidValue "planar bitmap has no pixels" 0
  else if maxDimension < width ∨ maxDimension < height then
    fail .limitExceeded "planar bitmap exceeds planar::max_dimension" 0
  else (decodeStream ⟨width, height, orientation⟩ ⟨stream, 0⟩).map Prod.fst

end Planar
end Codec
end Farland
