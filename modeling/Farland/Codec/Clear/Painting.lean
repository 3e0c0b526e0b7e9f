/-
# What the ClearCodec decoder does to its storages and the picture

`clear_decoder.cpp` once more, with every access it makes: a call works on its
storages and on the caller's bytes in place, and what it did before it refused
a stream stays done. `Decoder.decode` is what such a call answers
(`Decoder.decode_eq`); here is also what it leaves behind. An access outside a
storage, a palette or the bytes breaks off (`Stop.broken`), and so does a failed
assertion, and a loop that would go on without reading anything.
-/
import Farland.Codec.Clear.Decoder
import Farland.Lib.Handler

namespace Farland
namespace Codec
namespace Clear

open Reader List RasterCursor
open Handler (act update refuse wp wp_bind wp_pure wp_refuse wp_act wp_update wp_ite wp_refuseIf wp_mono)

/-- Why a call ends early. -/
inductive Stop where
  | refused (e : Error)
  | broken
  deriving DecidableEq

/-- The decoder's storages and the caller's bytes. -/
structure Canvas where
  decoder : Decoder
  out : List UInt8
  deriving DecidableEq

variable {R : Stop → Canvas → Prop}

abbrev Painting (α : Type) := Handler Stop Canvas α

namespace Painting

def fail {α : Type} (code : Errc) (what : String) (offset : ℕ := 0) : Painting α := refuse (.refused ⟨code, what, offset⟩)

/-- A step on the stream. -/
def parse {α : Type} (p : Parse α) (r : Reader) : Painting (α × Reader) := Handler.orRefuse .refused (p r)

def rule (p : Prop) [Decidable p] : Painting Unit := Handler.refuseIf (¬ p) .broken

def access {α : Type} (l : List α) (i : ℕ) : Painting α :=
  match l[i]? with
  | some a => pure a
  | none => refuse .broken

def onDecoder (f : Decoder → Decoder) : Painting Unit := update fun k => { k with decoder := f k.decoder }

def decoder : Painting Decoder := act fun k => (k.decoder, k)

/-! ### Pixels -/

def put (t : Target) (x y : ℕ) (c : Color) : Painting Unit := do
  let out ← act fun k => (k.out, k)
  rule (t.offset x y + bytesPerPixel ≤ out.length)
  update fun k => { k with out := t.put k.out x y c }

def get (t : Target) (x y : ℕ) : Painting Color := do
  let out ← act fun k => (k.out, k)
  rule (t.offset x y + bytesPerPixel ≤ out.length)
  pure (t.get out x y)

/-- `RasterCursor::fill`. -/
def fill (t : Target) : RasterCursor → Color → ℕ → Painting RasterCursor
  | cursor, _, 0 => pure cursor
  | cursor, c, count + 1 => do
    put t (cursor.x0 + cursor.x) (cursor.y0 + cursor.y) c
    fill t cursor.advance c count

/-- The elements of a list at some places, one pixel each. -/
def fillEach (t : Target) (l : List Color) : RasterCursor → List ℕ → Painting RasterCursor
  | cursor, [] => pure cursor
  | cursor, i :: is => do
    let c ← access l i
    let cursor ← fill t cursor c 1
    fillEach t l cursor is

/-! ### The residual layer -/

def decodeResidualRuns (t : Target) : ℕ → Reader → ℕ → RasterCursor → Painting Unit
  | 0, _, _, _ => refuse .broken
  | fuel + 1, r, painted, cursor =>
    if r.empty then
      if painted ≠ t.pixels then fail .invalidLength "ClearCodec residual runs do not cover the bitmap" r.offset
      else pure ()
    else do
      let (c, r₁) ← parse readBgr r
      let (run, r₂) ← parse readRunLength r₁
      if run = 0 then fail .invalidValue "ClearCodec residual run length is 0" r.offset
      else if run > t.pixels - painted then
        fail .invalidLength "ClearCodec residual runs overrun the bitmap" r.offset
      else do
        let cursor ← fill t cursor c run
        decodeResidualRuns t fuel r₂ (painted + run) cursor

variable (r : Reader)

variable (t : Target)

def decodeResidual : Painting Unit :=
  decodeResidualRuns t (r.remaining + 1) r 0 { x0 := 0, y0 := 0, width := t.width }

/-! ### The bands layer -/

/-- The pixels of the short V-bar at the cursor, and the next cursor. -/
def setShortVbar (slot : ℕ) (f : Entry → Entry) : Painting Unit :=
  onDecoder fun s => { s with shortVbars := s.shortVbars.modify slot f }

/-- Reads the pixels of an entry into it, one by one. -/
def readShortVbar (slot : ℕ) : ℕ → ℕ → Reader → Painting Reader
  | _, 0, r => pure r
  | i, count + 1, r => do
    let (c, r') ← parse readBgr r
    setShortVbar slot fun entry => { entry with pixels := entry.pixels.set i c }
    readShortVbar slot (i + 1) count r'

/-- `vector::resize` of the pixels of an entry. -/
def Entry.resized (entry : Entry) (size : ℕ) : Entry :=
  { entry with pixels := entry.pixels.take size ++ List.replicate (size - entry.pixels.length) 0 }

/-- A short V-bar and where it starts, from its storage or from the stream. -/
def decodeShortVbar (headerAt header height : ℕ) : Painting (ℕ × List Color × Reader) :=
  if header &&& 0xC000 = 0x4000 then do
    let (yOn, r') ← parse u8 r
    let s ← decoder
    let entry ← access s.shortVbars (header &&& 0x3FFF)
    if !entry.used then
      fail .invalidValue "ClearCodec SHORT_VBAR_CACHE_HIT names an empty entry" headerAt
    else if yOn > height ∨ entry.pixels.length > height - yOn then
      fail .invalidValue "ClearCodec short V-bar does not fit in the band" headerAt
    else pure (yOn, entry.pixels, r')
  else
    let yOn := header &&& 0xFF
    let yOff := header >>> 8 &&& 0x3F
    if yOff < yOn ∨ yOff > height then
      fail .invalidValue "ClearCodec short V-bar does not fit in the band" headerAt
    else do
      let slot := (← decoder).shortVbarCursor
      let _ ← access (← decoder).shortVbars slot
      setShortVbar slot (Entry.resized · (yOff - yOn))
      let r' ← readShortVbar slot 0 (yOff - yOn) r
      setShortVbar slot fun entry => { entry with used := true }
      onDecoder fun s => { s with shortVbarCursor := (s.shortVbarCursor + 1) % shortVbarCacheSize }
      let entry ← access (← decoder).shortVbars slot
      pure (yOn, entry.pixels, r')

/-- One V-bar of a band. -/
def decodeVbar (height : ℕ) (background : Color) : Painting (List Color × Reader) := do
  let (header, r') ← parse u16le r
  if header &&& 0x8000 ≠ 0 then
    let entry ← access (← decoder).vbars (header &&& 0x7FFF)
    if !entry.used ∨ entry.pixels.length ≠ height then
      fail .invalidValue "ClearCodec VBAR_CACHE_HIT names no V-bar of the band's height" r.offset
    else pure (entry.pixels, r')
  else
    let (yOn, pixels, r'') ← decodeShortVbar r' r.offset header height
    rule (yOn + pixels.length ≤ height)
    let column := Ring.overwrite (List.replicate height background) yOn pixels
    let slot := (← decoder).vbarCursor
    let _ ← access (← decoder).vbars slot
    onDecoder fun s =>
      { s with vbars := s.vbars.set slot ⟨column, true⟩, vbarCursor := (slot + 1) % vbarCacheSize }
    pure (column, r'')

/-- Paints the rows `y`, … of a V-bar. -/
def paintColumn (t : Target) (x yStart : ℕ) (vbar : List Color) : List ℕ → Painting Unit
  | [] => pure ()
  | y :: ys => do
    let c ← access vbar y
    put t x (yStart + y) c
    paintColumn t x yStart vbar ys

def decodeVbars (t : Target) (yStart height : ℕ) (background : Color) : List ℕ → Reader → Painting Reader
  | [], r => pure r
  | x :: xs, r => do
    let (vbar, r') ← decodeVbar r height background
    paintColumn t x yStart vbar (List.range height)
    decodeVbars t yStart height background xs r'

def decodeBand : Painting Reader := do
  let ((xStart, xEnd, yStart, yEnd, background), r') ← parse readBandHeader r
  if xEnd < xStart ∨ yEnd < yStart then fail .invalidValue "ClearCodec band ends before it starts" r.offset
  else if xEnd ≥ t.width ∨ yEnd ≥ t.height then
    fail .invalidValue "ClearCodec band lies outside the bitmap" r.offset
  else if yEnd - yStart + 1 > maxBandHeight then
    fail .invalidValue "ClearCodec band is higher than 52 pixels" r.offset
  else decodeVbars t yStart (yEnd - yStart + 1) background (List.range' xStart (xEnd - xStart + 1)) r'

def decodeBandsLoop (t : Target) : ℕ → Reader → Painting Unit
  | 0, _ => refuse .broken
  | fuel + 1, r =>
    if r.empty then pure ()
    else do
      let r' ← decodeBand r t
      decodeBandsLoop t fuel r'

def decodeBands : Painting Unit := do
  onDecoder Decoder.allocateVbars
  decodeBandsLoop t (r.remaining + 1) r

/-! ### The subcodecs layer -/

def decodeRlexSegments (t : Target) (palette : List Color) (indexBits pixels : ℕ) :
    ℕ → Reader → ℕ → RasterCursor → Painting Unit
  | 0, _, _, _ => refuse .broken
  | fuel + 1, r, painted, cursor =>
    if r.empty then
      if painted ≠ pixels then
        fail .invalidLength "ClearCodec RLEX segments do not cover the subcodec" r.offset
      else pure ()
    else do
      let (packed, r₁) ← parse u8 r
      let (run, r₂) ← parse readRunLength r₁
      let stop := packed &&& (2 ^ indexBits - 1)
      let depth := packed >>> indexBits
      if stop ≥ palette.length ∨ depth > stop then
        fail .invalidValue "ClearCodec RLEX suite leaves the palette" r.offset
      else if run > pixels - painted ∨ depth + 1 > pixels - painted - run then
        fail .invalidLength "ClearCodec RLEX segments overrun the subcodec" r.offset
      else do
        let c ← access palette (stop - depth)
        let cursor ← fill t cursor c run
        let cursor ← fillEach t palette cursor (List.range' (stop - depth) (depth + 1))
        decodeRlexSegments t palette indexBits pixels fuel r₂ (painted + (run + depth + 1)) cursor

def decodeRlex (x0 y0 width height : ℕ) : Painting Unit := do
  let (paletteCount, r₁) ← parse u8 r
  if paletteCount = 0 ∨ paletteCount > maxPaletteSize then
    fail .invalidValue "ClearCodec RLEX paletteCount is not 1..127" r.offset
  else do
    let (palette, r₂) ← parse (readMany readBgr paletteCount) r₁
    decodeRlexSegments t palette (rlexIndexBits paletteCount) (width * height) (r₂.remaining + 1) r₂ 0
      { x0 := x0, y0 := y0, width := width }

/-- Reads and paints that many pixels, in raster order. -/
def decodeUncompressed (t : Target) : RasterCursor → ℕ → Reader → Painting Unit
  | _, 0, _ => pure ()
  | cursor, count + 1, r => do
    let (c, r') ← parse readBgr r
    let cursor ← fill t cursor c 1
    decodeUncompressed t cursor count r'

def decodeSubcodec : Painting Reader := do
  let ((xStart, yStart, width, height, byteCount, id), r₁) ← parse readSubcodecHeader r
  if xStart + width > t.width ∨ yStart + height > t.height then
    fail .invalidValue "ClearCodec subcodec lies outside the bitmap" r.offset
  else if byteCount > 3 * width * height then
    fail .invalidLength "ClearCodec subcodec bitmapDataByteCount exceeds 3 * width * height" r.offset
  else do
    let (data, r₂) ← parse (sub byteCount) r₁
    if id = subcodecUncompressed then
      if byteCount ≠ 3 * width * height then
        fail .invalidLength "ClearCodec uncompressed subcodec has the wrong size" r.offset
      else do
        decodeUncompressed t { x0 := xStart, y0 := yStart, width := width } (width * height) data
        pure r₂
    else if id = subcodecNscodec then
      fail .unsupported "ClearCodec NSCodec subcodec is not supported" r.offset
    else if id = subcodecRlex then do
      decodeRlex data t xStart yStart width height
      pure r₂
    else fail .invalidValue "unknown ClearCodec subCodecId" r.offset

def decodeSubcodecs (t : Target) : ℕ → Reader → Painting Unit
  | 0, _ => refuse .broken
  | fuel + 1, r =>
    if r.empty then pure ()
    else do
      let r' ← decodeSubcodec r t
      decodeSubcodecs t fuel r'

/-! ### Streams -/

/-- The layers in the order they are painted. -/
def decodeComposite : Painting Unit := do
  let (layers, _) ← parse readLayers r
  if layers.residual.remaining ≠ 0 then decodeResidual layers.residual t
  decodeBands layers.bands t
  decodeSubcodecs t (layers.subcodecs.remaining + 1) layers.subcodecs

/-- What the rectangle holds at some places in raster order. -/
def readPixels (t : Target) : List ℕ → Painting (List Color)
  | [] => pure []
  | i :: is => do
    let c ← get t (i % t.width) (i / t.width)
    let cs ← readPixels t is
    pure (c :: cs)

def decodeGlyph (hit : Bool) : Painting Unit :=
  if t.pixels > maxGlyphPixels then fail .invalidValue "ClearCodec glyph is larger than 1024 pixels" 0
  else do
    let (index, r') ← parse u16le r
    if index ≥ glyphCacheSize then fail .invalidValue "ClearCodec glyphIndex is above 3999" r.offset
    else do
      onDecoder Decoder.allocateGlyphs
      let glyph ← access (← decoder).glyphs index
      if hit then
        if !glyph.used ∨ glyph.pixels.length < t.pixels then
          fail .invalidValue "ClearCodec glyph hit names no glyph of that size" r.offset
        else do
          let _ ← fillEach t glyph.pixels { x0 := 0, y0 := 0, width := t.width } (List.range t.pixels)
          let _ ← parse (expectEnd "ClearCodec glyph hit has a compositePayload") r'
          pure ()
      else do
        decodeComposite r' t
        let pixels ← readPixels t (List.range t.pixels)
        onDecoder fun s => { s with glyphs := s.glyphs.set index ⟨pixels, true⟩ }

/-- The flags and the sequence number. -/
def readStreamHeader : Painting (ℕ × Reader) := do
  let (flags, r₁) ← parse u8 r
  let (sequence, r₂) ← parse u8 r₁
  if flags &&& (0xFF ^^^ knownFlags) ≠ 0 then fail .invalidValue "ClearCodec flags has unknown bits" 0
  else if sequence ≠ (← decoder).sequence then
    fail .invalidValue "ClearCodec seqNumber is out of sequence" 1
  else do
    onDecoder fun s => { s with sequence := (sequence + 1) % 256 }
    if flags &&& flagCacheReset ≠ 0 then onDecoder fun s => { s with vbarCursor := 0, shortVbarCursor := 0 }
    if flags &&& flagGlyphHit ≠ 0 ∧ flags &&& flagGlyphIndex = 0 then
      fail .invalidValue "ClearCodec CLEARCODEC_FLAG_GLYPH_HIT without GLYPH_INDEX" 0
    else pure (flags, r₂)

def decode (stream : List UInt8) (width height stride : ℕ) : Painting Unit :=
  if width = 0 ∨ height = 0 then fail .invalidValue "ClearCodec bitmap has no pixels"
  else if width > maxDimension ∨ height > maxDimension then
    fail .limitExceeded "ClearCodec bitmap exceeds clear::max_dimension"
  else do
    let t : Target := ⟨stride, width, height⟩
    let out ← act fun k => (k.out, k)
    rule (t.Valid out)
    let (flags, r) ← readStreamHeader ⟨stream, 0⟩
    if flags &&& flagGlyphIndex ≠ 0 then decodeGlyph r t (flags &&& flagGlyphHit ≠ 0) else decodeComposite r t

end Painting

/-- A call, successful or not: what it answers, and what it leaves of the
storages and the caller's bytes. -/
def Decoder.paint (s : Decoder) (stream : List UInt8) (width height : ℕ) (out : List UInt8) (stride : ℕ) :
    Except Stop Unit × Canvas :=
  Handler.exec (Painting.decode stream width height stride) ⟨s, out⟩

/-! ### The same answers -/

namespace Painting

/-- A refusal for the reason `stop` is one of `y`. -/
structure Agrees {β : Type} (y : Option (Result β)) (stop : Stop) (k : Canvas) : Prop where
  error : ∀ e, stop = .refused e → y = some (.error e)

variable {α β : Type} {k : Canvas}

theorem agrees_broken {y : Option (Result β)} {stop : Stop} (h : stop = .broken) : Agrees y stop k := by
  refine ⟨fun e he => ?_⟩
  rw [h] at he
  cases he

theorem agrees_error {y : Option (Result β)} {e : Error} (h : y = some (.error e)) : Agrees y (.refused e) k := by
  refine ⟨fun e' he => ?_⟩
  cases he
  exact h

theorem wp_parse {p : Parse α} {r : Reader} {Q : α × Reader → Canvas → Prop}
    (hok : ∀ a r', p r = .ok (a, r') → Q (a, r') k) (herror : ∀ e, p r = .error e → R (.refused e) k) :
    wp (parse p r) Q R k :=
  Handler.wp_orRefuse (fun a => hok a.1 a.2) herror

theorem wp_rule {p : Prop} [Decidable p] {Q : Unit → Canvas → Prop} (hp : p → Q () k)
    (hbroken : ¬p → R .broken k) : wp (rule p) Q R k := by
  rw [rule, wp_refuseIf]
  split_ifs with h
  · exact hp h
  · exact hbroken h

theorem wp_access {l : List α} {i : ℕ} {Q : α → Canvas → Prop}
    (hok : ∀ a, l[i]? = some a → Q a k) (hbroken : l[i]? = none → R .broken k) : wp (access l i) Q R k := by
  unfold access
  cases h : l[i]? with
  | none => exact hbroken h
  | some a => exact hok a h

theorem wp_put {t : Target} {x y : ℕ} {c : Color} {Q : Unit → Canvas → Prop}
    (hok : t.offset x y + bytesPerPixel ≤ k.out.length → Q () { k with out := t.put k.out x y c })
    (hbroken : ¬ t.offset x y + bytesPerPixel ≤ k.out.length → R .broken k) : wp (put t x y c) Q R k := by
  unfold put
  rw [wp_bind, wp_act, wp_bind]
  exact wp_rule hok hbroken

variable {m : Painting α} {f : α → Painting β} {P : α → Canvas → Prop} {Q : β → Canvas → Prop} {δ : Type}
  {y : Option (Result δ)}

/-- What refuses the first of two steps refuses both. -/
theorem wp_then {γ : Type} {x : Option (Result γ)} (hm : wp m P (Agrees x) k)
    (hok : ∀ a k', P a k' → wp (f a) Q (Agrees y) k')
    (herror : ∀ e, x = some (.error e) → y = some (.error e)) : wp (m >>= f) Q (Agrees y) k := by
  rw [wp_bind]
  exact wp_mono hm hok fun _ _ h => ⟨fun e he => herror e (h.error e he)⟩

/-- A step that can only break off. -/
theorem wp_unbroken (hm : wp m P (fun stop _ => stop = .broken) k)
    (hok : ∀ a k', P a k' → wp (f a) Q (Agrees y) k') : wp (m >>= f) Q (Agrees y) k := by
  rw [wp_bind]
  exact wp_mono hm hok fun _ _ h => agrees_broken h

theorem wp_parse_then {p : Parse α} {r : Reader} {f : α × Reader → Painting β}
    (hok : ∀ a r', p r = .ok (a, r') → wp (f (a, r')) Q (Agrees y) k)
    (herror : ∀ e, p r = .error e → y = some (.error e)) :
    wp (parse p r >>= f) Q (Agrees y) k := by
  rw [wp_bind]
  exact wp_parse hok fun e he => agrees_error (herror e he)

/-- Only the bytes change, and those as `out` says. -/
def Painted (k : Canvas) (out : List UInt8) (k' : Canvas) : Prop := k' = { k with out := out }

/-- `m` breaks off, or paints as `x` says. -/
def Paints (m : Painting Unit) (x : Result (List UInt8)) (k : Canvas) : Prop :=
  wp m (fun _ k' => ∃ out, x = .ok out ∧ Painted k out k') (Agrees (some x)) k

/-- `m` breaks off, or decodes as `x` says. -/
def Decodes (m : Painting Unit) (x : Option (Result (Decoder × List UInt8))) (k : Canvas) : Prop :=
  wp m (fun _ k' => x = some (.ok (k'.decoder, k'.out))) (Agrees x) k

theorem fill_answers (t : Target) (c : Color) : ∀ (count : ℕ) (cursor : RasterCursor) (k : Canvas),
    wp (fill t cursor c count) (fun cursor' k' => cursor' = (RasterCursor.fill t (cursor, k.out) c count).1 ∧
        Painted k (RasterCursor.fill t (cursor, k.out) c count).2 k') (fun stop _ => stop = .broken) k
  | 0, cursor, k => ⟨rfl, rfl⟩
  | count + 1, cursor, k => by
    rw [fill, wp_bind]
    refine wp_put (fun _ => ?_) fun _ => rfl
    exact fill_answers t c count cursor.advance _

theorem fillEach_answers (t : Target) (l : List Color) : ∀ (is : List ℕ) (cursor : RasterCursor) (k : Canvas),
    wp (fillEach t l cursor is)
      (fun cursor' k' => (∀ i ∈ is, i < l.length) ∧
        cursor' = (paintAll t (cursor, k.out) (is.map fun i => l.getD i 0)).1 ∧
        Painted k (paintAll t (cursor, k.out) (is.map fun i => l.getD i 0)).2 k')
      (fun stop _ => stop = .broken) k
  | [], cursor, k => ⟨by simp, rfl, rfl⟩
  | i :: is, cursor, k => by
    rw [fillEach, wp_bind]
    refine wp_access (fun c hc => ?_) fun _ => rfl
    have hlt : i < l.length := (List.getElem?_eq_some_iff.mp hc).1
    have hget : l.getD i 0 = c := by rw [getD_eq_getElem?_getD, hc, Option.getD_some]
    rw [wp_bind]
    refine wp_mono (fill_answers t c 1 cursor k) ?_ fun _ _ h => h
    rintro cursor₁ k₁ ⟨rfl, rfl⟩
    refine wp_mono (fillEach_answers t l is _ _) ?_ fun _ _ h => h
    rintro cursor₂ k₂ ⟨hall, rfl, rfl⟩
    refine ⟨?_, ?_, ?_⟩
    · intro j hj
      rcases mem_cons.mp hj with rfl | hj
      · exact hlt
      · exact hall j hj
    all_goals
      rw [map_cons, hget]
      rfl

/-! ### The residual layer -/

theorem decodeResidualRuns_answers (t : Target) : ∀ (fuel : ℕ) (r : Reader) (painted : ℕ) (cursor : RasterCursor)
    (k : Canvas), Paints (decodeResidualRuns t fuel r painted cursor)
      (Clear.decodeResidualRuns t fuel r painted (cursor, k.out)) k
  | 0, r, painted, cursor, k => agrees_broken rfl
  | fuel + 1, r, painted, cursor, k => by
    rw [Paints, decodeResidualRuns, Clear.decodeResidualRuns, wp_ite]
    split_ifs with hempty hpainted
    · exact agrees_error rfl
    · exact ⟨_, rfl, rfl⟩
    refine wp_parse_then (fun c r₁ hc => ?_) fun e he => by rw [he]
    rw [hc]
    dsimp only
    refine wp_parse_then (fun run r₂ hrun => ?_) fun e he => by rw [he]
    rw [hrun]
    dsimp only
    rw [wp_ite, wp_ite]
    split_ifs
    · exact agrees_error rfl
    · exact agrees_error rfl
    · refine wp_unbroken (fill_answers t c run cursor k) ?_
      rintro cursor₁ k₁ ⟨rfl, rfl⟩
      exact decodeResidualRuns_answers t fuel r₂ (painted + run) _ _

theorem decodeResidual_answers (r : Reader) (t : Target) (k : Canvas) :
    Paints (decodeResidual r t) (Clear.decodeResidual r t k.out) k :=
  decodeResidualRuns_answers t _ r 0 _ k

end Painting

/-- The entry of a short V-bar, changed. -/
def Canvas.withShort (k : Canvas) (slot : ℕ) (entry : Entry) : Canvas :=
  { k with decoder := { k.decoder with shortVbars := k.decoder.shortVbars.set slot entry } }

theorem getElem?_withShort {k : Canvas} {slot : ℕ} {entry : Entry} (h : k.decoder.shortVbars[slot]? = some entry)
    (entry' : Entry) : (k.withShort slot entry').decoder.shortVbars[slot]? = some entry' :=
  getElem?_set_self (List.getElem?_eq_some_iff.mp h).1

theorem withShort_withShort (k : Canvas) (slot : ℕ) (entry entry' : Entry) :
    (k.withShort slot entry).withShort slot entry' = k.withShort slot entry' := by
  simp [Canvas.withShort]

theorem withShort_self {k : Canvas} {slot : ℕ} {entry : Entry} (h : k.decoder.shortVbars[slot]? = some entry) :
    k.withShort slot entry = k := by
  obtain ⟨hlt, rfl⟩ := List.getElem?_eq_some_iff.mp h
  simp [Canvas.withShort]

namespace Painting

variable {α β : Type} {k : Canvas}

/-! ### The bands layer -/

theorem wp_setShortVbar {slot : ℕ} {f : Entry → Entry} {Q : Unit → Canvas → Prop}
    {entry : Entry} (h : k.decoder.shortVbars[slot]? = some entry) (hQ : Q () (k.withShort slot (f entry))) :
    wp (setShortVbar slot f) Q R k := by
  have hset : k.decoder.shortVbars.modify slot f = k.decoder.shortVbars.set slot (f entry) := by
    rw [modify_eq_set_getElem?, h]
    rfl
  unfold Canvas.withShort at hQ
  rw [← hset] at hQ
  exact hQ

theorem readMany_next {count : ℕ} {r r₁ : Reader} {c : Color} (h : readBgr r = .ok (c, r₁)) :
    readMany readBgr (count + 1) r = (readMany readBgr count r₁).map fun p => (c :: p.1, p.2) := by
  rw [readMany, Parse.bind_ok h]
  change (Except.bind (readMany readBgr count r₁) fun p => _) = _
  cases readMany readBgr count r₁ <;> rfl

theorem readMany_error {count : ℕ} {r : Reader} {e : Error} (h : readBgr r = .error e) :
    readMany readBgr (count + 1) r = .error e := by
  change (Except.bind (readBgr r) fun p => _) = _
  rw [h]
  rfl

theorem eq_error {l : Result (List Color × Reader)} {e : Error} (h : some (l.map Prod.fst) = some (.error e)) :
    l = .error e := by
  cases l with
  | error e' =>
    cases h
    rfl
  | ok p => cases h

/-- What refuses the rest of some pixels refuses all of them. -/
theorem agrees_readMany {γ δ : Type} {l : Result (List Color × Reader)} {f : List Color × Reader → γ} {g : γ → δ}
    {stop : Stop} (h : Agrees (some (l.map Prod.fst)) stop k) : Agrees (some ((l.map f).map g)) stop k := by
  refine ⟨fun e he => ?_⟩
  rw [eq_error (h.error e he)]
  rfl

theorem readShortVbar_answers (slot : ℕ) : ∀ (count i : ℕ) (r : Reader) (k : Canvas) (entry : Entry),
    k.decoder.shortVbars[slot]? = some entry → entry.pixels.length = i + count →
    wp (readShortVbar slot i count r) (fun r' k' => ∃ cs, readMany readBgr count r = .ok (cs, r') ∧
        k' = k.withShort slot { entry with pixels := entry.pixels.take i ++ cs })
      (Agrees (some ((readMany readBgr count r).map Prod.fst))) k
  | 0, i, r, k, entry, h, hlen => by
    refine ⟨[], rfl, ?_⟩
    rw [append_nil, take_of_length_le (by omega), withShort_self h]
  | count + 1, i, r, k, entry, h, hlen => by
    rw [readShortVbar]
    refine wp_parse_then (fun c r₁ hc => ?_) fun e he => by rw [readMany_error he]; rfl
    dsimp only
    rw [wp_bind, readMany_next hc]
    refine wp_setShortVbar h ?_
    refine wp_mono (readShortVbar_answers slot count (i + 1) r₁ _ _ (getElem?_withShort h _) ?_) ?_ fun stop _ hstop => ?_
    · dsimp only
      rw [length_set]
      omega
    · rintro r' k' ⟨cs, hcs, rfl⟩
      refine ⟨c :: cs, by rw [hcs]; rfl, ?_⟩
      rw [withShort_withShort]
      have htake : (entry.pixels.set i c).take (i + 1) = entry.pixels.take i ++ [c] := by
        rw [take_add_one, getElem?_set_self (by omega), take_set_of_le (le_refl i)]
        rfl
      rw [htake, append_assoc]
      rfl
    · exact agrees_readMany hstop

variable (r : Reader)

theorem decodeShortVbar_answers (headerAt header height : ℕ) :
    wp (decodeShortVbar r headerAt header height)
      (fun a k' => Clear.decodeShortVbar k.decoder r headerAt header height =
        some (.ok (a.1, a.2.1, k'.decoder, a.2.2)) ∧ k'.out = k.out)
      (Agrees (Clear.decodeShortVbar k.decoder r headerAt header height)) k := by
  unfold decodeShortVbar Clear.decodeShortVbar
  dsimp only
  split_ifs with hhit hfit
  · refine wp_parse_then (fun yOn r' hu => ?_) fun e he => by rw [he]
    rw [hu]
    rw [wp_bind, decoder, wp_act, wp_bind]
    refine wp_access (fun entry he => ?_) fun _ => agrees_broken rfl
    rw [he]
    dsimp only
    split_ifs
    · exact agrees_error rfl
    · exact agrees_error rfl
    · exact ⟨rfl, rfl⟩
  · exact agrees_error rfl
  · rw [wp_bind, decoder, wp_act, wp_bind, wp_act, wp_bind]
    refine wp_access (fun entry he => ?_) fun _ => agrees_broken rfl
    rw [he, wp_bind]
    refine wp_setShortVbar he ?_
    rw [wp_bind]
    have hlen : (Entry.resized entry ((header >>> 8 &&& 0x3F) - (header &&& 0xFF))).pixels.length =
        0 + ((header >>> 8 &&& 0x3F) - (header &&& 0xFF)) := by
      simp only [Entry.resized, length_append, length_take, length_replicate]
      omega
    have he₁ := getElem?_withShort he (Entry.resized entry ((header >>> 8 &&& 0x3F) - (header &&& 0xFF)))
    refine wp_mono (readShortVbar_answers _ _ 0 r _ _ he₁ hlen) ?_ ?_
    · rintro r' k₁ ⟨cs, hcs, rfl⟩
      have he₂ := getElem?_withShort he₁ { Entry.resized entry ((header >>> 8 &&& 0x3F) - (header &&& 0xFF)) with
        pixels := cs }
      rw [hcs, wp_bind]
      refine wp_setShortVbar he₂ ?_
      rw [wp_bind, onDecoder, wp_update, wp_bind, wp_act, wp_bind]
      refine wp_access (fun entry' he' => ?_) fun _ => agrees_broken rfl
      have hentry : entry' = ⟨cs, true⟩ := Option.some.inj (he'.symm.trans (getElem?_withShort he₂ _))
      rw [hentry, withShort_withShort, withShort_withShort]
      exact ⟨rfl, rfl⟩
    · refine fun stop _ hstop => ⟨fun e hes => ?_⟩
      rw [eq_error (hstop.error e hes)]

theorem decodeVbar_answers (height : ℕ) (background : Color) :
    wp (decodeVbar r height background)
      (fun a k' => Clear.decodeVbar k.decoder r height background = some (.ok (a.1, k'.decoder, a.2)) ∧
        k'.out = k.out ∧ a.1.length = height)
      (Agrees (Clear.decodeVbar k.decoder r height background)) k := by
  unfold decodeVbar Clear.decodeVbar
  refine wp_parse_then (fun header r' hu => ?_) fun e he => by rw [he]
  rw [hu]
  dsimp only
  split_ifs with hhit
  · rw [wp_bind, decoder, wp_act, wp_bind]
    refine wp_access (fun entry he => ?_) fun _ => agrees_broken rfl
    rw [he]
    dsimp only
    split_ifs with hmisfit
    · exact agrees_error rfl
    · exact ⟨rfl, rfl, by_contra fun hne => hmisfit (.inr hne)⟩
  · refine wp_then (decodeShortVbar_answers r' r.offset header height) ?_ fun e he => by rw [he]
    rintro ⟨yOn, pixels, r''⟩ k₁ ⟨hshort, hout⟩
    rw [hshort]
    dsimp only
    rw [wp_bind]
    refine wp_rule (fun hfits => ?_) fun _ => agrees_broken rfl
    rw [wp_bind, decoder, wp_act, wp_bind, wp_act, wp_bind]
    refine wp_access (fun entry he => ?_) fun _ => agrees_broken rfl
    rw [he]
    refine ⟨rfl, hout, ?_⟩
    rw [Ring.overwrite_length (by rwa [length_replicate]), length_replicate]

theorem paintColumn_answers (t : Target) (x yStart : ℕ) (vbar : List Color) : ∀ (count y : ℕ) (k : Canvas),
    y + count = vbar.length → wp (paintColumn t x yStart vbar (List.range' y count))
      (fun _ k' => Painted k (Clear.paintColumn t x (yStart + y) (vbar.drop y) k.out) k')
      (fun stop _ => stop = .broken) k
  | 0, y, k, h => by
    rw [drop_eq_nil_of_le (by omega)]
    exact rfl
  | count + 1, y, k, h => by
    have hy : y < vbar.length := by omega
    rw [range'_succ, paintColumn, wp_bind]
    refine wp_access (fun c hc => ?_) fun _ => rfl
    rw [wp_bind]
    refine wp_put (fun _ => ?_) fun _ => rfl
    have hdrop : vbar.drop y = c :: vbar.drop (y + 1) := by
      rw [drop_eq_getElem_cons hy]
      congr 1
      exact Option.some.inj ((getElem?_eq_getElem hy).symm.trans hc)
    rw [hdrop]
    exact paintColumn_answers t x yStart vbar count (y + 1) _ (by omega)

theorem decodeVbars_answers (t : Target) (yStart height : ℕ) (background : Color) : ∀ (xs : List ℕ) (r : Reader)
    (k : Canvas), wp (decodeVbars t yStart height background xs r)
      (fun r' k' => Clear.decodeVbars t yStart height background xs k.decoder r k.out =
        some (.ok (k'.decoder, r', k'.out)))
      (Agrees (Clear.decodeVbars t yStart height background xs k.decoder r k.out)) k
  | [], r, k => rfl
  | x :: xs, r, k => by
    rw [decodeVbars, Clear.decodeVbars]
    refine wp_then (decodeVbar_answers r height background) ?_ fun e he => by rw [he]
    rintro ⟨vbar, r'⟩ k₁ ⟨hvbar, hout, hlen⟩
    rw [hvbar]
    dsimp only
    rw [range_eq_range']
    refine wp_unbroken (paintColumn_answers t x yStart vbar height 0 k₁ (by rw [Nat.zero_add]; exact hlen.symm)) ?_
    rintro _ k₂ rfl
    rw [← hout]
    exact decodeVbars_answers t yStart height background xs r' _

variable (t : Target)

theorem decodeBand_answers : wp (decodeBand r t)
    (fun r' k' => Clear.decodeBand k.decoder r t k.out = some (.ok (k'.decoder, r', k'.out)))
    (Agrees (Clear.decodeBand k.decoder r t k.out)) k := by
  unfold decodeBand Clear.decodeBand
  refine wp_parse_then (fun header r' hu => ?_) fun e he => by rw [he]
  obtain ⟨xStart, xEnd, yStart, yEnd, background⟩ := header
  rw [hu]
  dsimp only
  split_ifs
  · exact agrees_error rfl
  · exact agrees_error rfl
  · exact agrees_error rfl
  · exact decodeVbars_answers t yStart _ background _ r' k

theorem decodeBandsLoop_answers (t : Target) : ∀ (fuel : ℕ) (r : Reader) (k : Canvas),
    Decodes (decodeBandsLoop t fuel r) (Clear.decodeBandsLoop t fuel k.decoder r k.out) k
  | 0, r, k => agrees_broken rfl
  | fuel + 1, r, k => by
    rw [Decodes, decodeBandsLoop, Clear.decodeBandsLoop, wp_ite]
    split_ifs
    · exact rfl
    · refine wp_then (decodeBand_answers r t) (fun r' k₁ hband => ?_) fun e he => by rw [he]
      rw [hband]
      exact decodeBandsLoop_answers t fuel r' k₁

theorem decodeBands_answers : Decodes (decodeBands r t) (Clear.decodeBands k.decoder r t k.out) k :=
  decodeBandsLoop_answers t _ r _

/-! ### The subcodecs layer -/

theorem decodeRlexSegments_answers (t : Target) (palette : List Color) (indexBits pixels : ℕ) : ∀ (fuel : ℕ)
    (r : Reader) (painted : ℕ) (cursor : RasterCursor) (k : Canvas),
    Paints (decodeRlexSegments t palette indexBits pixels fuel r painted cursor)
      (Clear.decodeRlexSegments t palette indexBits pixels fuel r painted (cursor, k.out)) k
  | 0, r, painted, cursor, k => agrees_broken rfl
  | fuel + 1, r, painted, cursor, k => by
    rw [Paints, decodeRlexSegments, Clear.decodeRlexSegments, wp_ite]
    split_ifs
    · exact agrees_error rfl
    · exact ⟨_, rfl, rfl⟩
    refine wp_parse_then (fun packed r₁ hpacked => ?_) fun e he => by rw [he]
    rw [hpacked]
    dsimp only
    refine wp_parse_then (fun run r₂ hrun => ?_) fun e he => by rw [he]
    rw [hrun]
    dsimp only
    rw [wp_ite, wp_ite]
    split_ifs
    · exact agrees_error rfl
    · exact agrees_error rfl
    rw [wp_bind]
    refine wp_access (fun c hc => ?_) fun _ => agrees_broken rfl
    have hget : palette.getD ((packed &&& 2 ^ indexBits - 1) - packed >>> indexBits) 0 = c := by
      rw [getD_eq_getElem?_getD, hc, Option.getD_some]
    rw [hget]
    refine wp_unbroken (fill_answers t c run cursor k) ?_
    rintro cursor₁ k₁ ⟨rfl, rfl⟩
    refine wp_unbroken (fillEach_answers t palette _ _ _) ?_
    rintro cursor₂ k₂ ⟨-, rfl, rfl⟩
    exact decodeRlexSegments_answers t palette indexBits pixels fuel r₂ _ _ _

theorem decodeRlex_answers (x0 y0 width height : ℕ) :
    Paints (decodeRlex r t x0 y0 width height) (Clear.decodeRlex r t x0 y0 width height k.out) k := by
  unfold Paints decodeRlex Clear.decodeRlex
  refine wp_parse_then (fun paletteCount r₁ hcount => ?_) fun e he => by rw [he]
  rw [hcount]
  dsimp only
  split_ifs
  · exact agrees_error rfl
  refine wp_parse_then (fun palette r₂ hpalette => ?_) fun e he => by rw [he]
  rw [hpalette]
  exact decodeRlexSegments_answers t palette _ _ _ r₂ 0 _ k

theorem decodeUncompressed_answers (t : Target) : ∀ (count : ℕ) (cursor : RasterCursor) (r : Reader) (k : Canvas),
    wp (decodeUncompressed t cursor count r) (fun _ k' => ∃ cs r', readMany readBgr count r = .ok (cs, r') ∧
        Painted k (paintAll t (cursor, k.out) cs).2 k')
      (Agrees (some ((readMany readBgr count r).map Prod.fst))) k
  | 0, cursor, r, k => ⟨[], r, rfl, rfl⟩
  | count + 1, cursor, r, k => by
    rw [decodeUncompressed]
    refine wp_parse_then (fun c r₁ hc => ?_) fun e he => by rw [readMany_error he]; rfl
    dsimp only
    rw [readMany_next hc]
    refine wp_unbroken (fill_answers t c 1 cursor k) ?_
    rintro cursor₁ k₁ ⟨rfl, rfl⟩
    refine wp_mono (decodeUncompressed_answers t count _ r₁ _) ?_ fun stop _ hstop => ?_
    · rintro _ k₂ ⟨cs, r', hcs, rfl⟩
      exact ⟨c :: cs, r', by rw [hcs]; rfl, rfl⟩
    · exact agrees_readMany hstop

theorem decodeSubcodec_answers : wp (decodeSubcodec r t)
    (fun r' k' => ∃ out, Clear.decodeSubcodec r t k.out = .ok (r', out) ∧ Painted k out k')
    (Agrees (some (Clear.decodeSubcodec r t k.out))) k := by
  unfold decodeSubcodec Clear.decodeSubcodec
  refine wp_parse_then (fun header r₁ hu => ?_) fun e he => by rw [he]
  obtain ⟨xStart, yStart, width, height, byteCount, id⟩ := header
  rw [hu]
  dsimp only
  by_cases houtside : xStart + width > t.width ∨ yStart + height > t.height
  · rw [if_pos houtside, if_pos houtside]
    exact agrees_error rfl
  rw [if_neg houtside, if_neg houtside]
  by_cases hlong : byteCount > 3 * width * height
  · rw [if_pos hlong, if_pos hlong]
    exact agrees_error rfl
  rw [if_neg hlong, if_neg hlong]
  refine wp_parse_then (fun data r₂ hsub => ?_) fun e he => by rw [he]
  rw [hsub]
  dsimp only
  split_ifs
  · exact agrees_error rfl
  · refine wp_then (decodeUncompressed_answers t _ _ data k) ?_ fun e he => by rw [eq_error he]
    rintro _ k₁ ⟨cs, r', hcs, rfl⟩
    rw [hcs]
    exact ⟨_, rfl, rfl⟩
  · exact agrees_error rfl
  · refine wp_then (decodeRlex_answers data t xStart yStart width height) ?_ fun e he => by rw [Option.some.inj he]
    rintro _ k₁ ⟨out, hout, rfl⟩
    rw [hout]
    exact ⟨_, rfl, rfl⟩
  · exact agrees_error rfl

theorem decodeSubcodecs_answers (t : Target) : ∀ (fuel : ℕ) (r : Reader) (k : Canvas),
    Paints (decodeSubcodecs t fuel r) (Clear.decodeSubcodecs t fuel r k.out) k
  | 0, r, k => agrees_broken rfl
  | fuel + 1, r, k => by
    rw [Paints, decodeSubcodecs, Clear.decodeSubcodecs, wp_ite]
    split_ifs
    · exact ⟨_, rfl, rfl⟩
    · refine wp_then (decodeSubcodec_answers r t) ?_ fun e he => by rw [Option.some.inj he]
      rintro r' k₁ ⟨out, hout, rfl⟩
      rw [hout]
      exact decodeSubcodecs_answers t fuel r' _

/-! ### Streams -/

/-- The layers over the residual one. -/
def paintLayers (s : Decoder) (layers : Layers) (t : Target) (out : List UInt8) : Option (Result (Decoder × List UInt8)) :=
  match Clear.decodeBands s layers.bands t out with
  | none => none
  | some (.error e) => some (.error e)
  | some (.ok (s', out₂)) =>
    match Clear.decodeSubcodecs t (layers.subcodecs.remaining + 1) layers.subcodecs out₂ with
    | .error e => some (.error e)
    | .ok out₃ => some (.ok (s', out₃))

theorem decodeComposite_answers :
    Decodes (decodeComposite r t) (Clear.decodeComposite k.decoder r t k.out) k := by
  unfold Decodes decodeComposite Clear.decodeComposite
  refine wp_parse_then (fun layers r' hu => ?_) fun e he => by rw [he]
  rw [hu]
  dsimp only
  have hrest : ∀ out, Decodes (do
        decodeBands layers.bands t
        decodeSubcodecs t (layers.subcodecs.remaining + 1) layers.subcodecs)
      (paintLayers k.decoder layers t out) { k with out := out } := by
    intro out
    unfold Decodes paintLayers
    refine wp_then (decodeBands_answers layers.bands t) (fun _ k₁ hbands => ?_) fun e he => by rw [he]
    rw [hbands]
    dsimp only
    refine wp_mono (decodeSubcodecs_answers t _ layers.subcodecs k₁) ?_ ?_
    · rintro _ k₂ ⟨out', hout, rfl⟩
      rw [hout]
    · refine fun stop _ hstop => ⟨fun e he => ?_⟩
      rw [Option.some.inj (hstop.error e he)]
  split_ifs
  · refine wp_then (decodeResidual_answers layers.residual t k) ?_ fun e he => by rw [Option.some.inj he]
    rintro _ k₁ ⟨out, hout, rfl⟩
    rw [hout]
    exact hrest out
  · exact hrest k.out

theorem readPixels_answers (t : Target) : ∀ (is : List ℕ) (k : Canvas), wp (readPixels t is)
    (fun cs k' => cs = (is.map fun i => t.get k.out (i % t.width) (i / t.width)) ∧ k' = k)
    (fun stop _ => stop = .broken) k
  | [], k => ⟨rfl, rfl⟩
  | i :: is, k => by
    rw [readPixels, wp_bind, get, wp_bind, wp_act, wp_bind]
    refine wp_rule (fun _ => ?_) fun _ => rfl
    rw [wp_pure, wp_bind]
    refine wp_mono (readPixels_answers t is k) ?_ fun _ _ h => h
    rintro cs k' ⟨rfl, rfl⟩
    exact ⟨rfl, rfl⟩

theorem decodeGlyph_answers (hit : Bool) :
    Decodes (decodeGlyph r t hit) (Clear.decodeGlyph k.decoder r t hit k.out) k := by
  unfold Decodes decodeGlyph Clear.decodeGlyph
  by_cases hlarge : t.pixels > maxGlyphPixels
  · rw [if_pos hlarge, if_pos hlarge]
    exact agrees_error rfl
  rw [if_neg hlarge, if_neg hlarge]
  refine wp_parse_then (fun index r' hu => ?_) fun e he => by rw [he]
  rw [hu]
  dsimp only
  by_cases hindex : index ≥ glyphCacheSize
  · rw [if_pos hindex, if_pos hindex]
    exact agrees_error rfl
  rw [if_neg hindex, wp_bind, onDecoder, wp_update, wp_bind, decoder, wp_act, wp_bind]
  refine wp_access (fun glyph he => ?_) fun _ => agrees_broken rfl
  rw [he]
  dsimp only
  split_ifs with hhit hmisfit
  · exact agrees_error rfl
  · -- replayed
    refine wp_unbroken (fillEach_answers t glyph.pixels (List.range t.pixels) _ _) ?_
    rintro cursor k₁ ⟨hall, -, rfl⟩
    have htake : ((List.range t.pixels).map fun i => glyph.pixels.getD i 0) = glyph.pixels.take t.pixels := by
      refine ext_getElem? fun i => ?_
      rw [getElem?_map, getElem?_take]
      by_cases hi : i < t.pixels
      · rw [getElem?_range hi, if_pos hi, Option.map_some, getD_eq_getElem?_getD,
          getElem?_eq_getElem (hall i (mem_range.mpr hi)), Option.getD_some]
      · rw [getElem?_eq_none (by rw [length_range]; omega), if_neg hi, Option.map_none]
    rw [htake]
    refine wp_parse_then (fun _ r'' hend => ?_) fun e he => by rw [he]
    rw [hend]
    exact rfl
  · -- stored once the layers are painted
    refine wp_then (decodeComposite_answers r' t) (fun _ k₁ hcomposite => ?_) fun e he => by rw [he]
    rw [hcomposite]
    refine wp_unbroken (readPixels_answers t (List.range t.pixels) k₁) ?_
    rintro pixels k₂ ⟨rfl, rfl⟩
    exact rfl

theorem readStreamHeader_answers : wp (readStreamHeader r)
    (fun a k' => Clear.readStreamHeader k.decoder r = .ok (a.1, k'.decoder, a.2) ∧ k'.out = k.out)
    (Agrees (some (Clear.readStreamHeader k.decoder r))) k := by
  unfold readStreamHeader Clear.readStreamHeader
  refine wp_parse_then (fun flags r₁ hflags => ?_) fun e he => by rw [he]
  rw [hflags]
  dsimp only
  refine wp_parse_then (fun sequence r₂ hsequence => ?_) fun e he => by rw [he]
  rw [hsequence]
  dsimp only
  by_cases hknown : flags &&& (0xFF ^^^ knownFlags) ≠ 0
  · rw [if_pos hknown, if_pos hknown]
    exact agrees_error rfl
  rw [if_neg hknown, if_neg hknown, wp_bind, decoder, wp_act]
  by_cases horder : sequence ≠ k.decoder.sequence
  · rw [if_pos horder, if_pos horder]
    exact agrees_error rfl
  rw [if_neg horder]
  by_cases hreset : flags &&& flagCacheReset ≠ 0
  all_goals
    split_ifs
    · exact agrees_error rfl
    · exact ⟨rfl, rfl⟩

theorem decode_answers (stream : List UInt8) (width height stride : ℕ) :
    Decodes (decode stream width height stride) (k.decoder.decode stream width height k.out stride) k := by
  unfold Decodes decode Decoder.decode
  by_cases hzero : width = 0 ∨ height = 0
  · rw [if_pos hzero, if_pos hzero]
    exact agrees_error rfl
  by_cases hlarge : width > maxDimension ∨ height > maxDimension
  · rw [if_neg hzero, if_neg hzero, if_pos hlarge, if_pos hlarge]
    exact agrees_error rfl
  rw [if_neg hzero, if_neg hzero, if_neg hlarge, if_neg hlarge, wp_bind, wp_act, wp_bind]
  refine wp_rule (fun hvalid => ?_) fun _ => agrees_broken rfl
  rw [if_pos hvalid]
  refine wp_then (readStreamHeader_answers ⟨stream, 0⟩) ?_ fun e he => by rw [Option.some.inj he]
  rintro ⟨flags, r⟩ k₁ ⟨hheader, hout⟩
  rw [hheader]
  dsimp only
  rw [← hout]
  split_ifs
  · exact decodeGlyph_answers r _ _
  · exact decodeComposite_answers r _

end Painting

/-- **A call that does not break off answers as `Decoder.decode`.** -/
theorem Decoder.decode_eq (s : Decoder) (stream : List UInt8) (width height : ℕ) (out : List UInt8) (stride : ℕ)
    (h : (s.paint stream width height out stride).1 ≠ .error .broken) :
    s.decode stream width height out stride = match s.paint stream width height out stride with
      | (.ok _, k) => some (.ok (k.decoder, k.out))
      | (.error (.refused e), _) => some (.error e)
      | (.error .broken, _) => none := by
  have hanswers := @Painting.decode_answers ⟨s, out⟩ stream width height stride
  unfold Painting.Decodes wp at hanswers
  change (Handler.exec _ _).1 ≠ _ at h
  unfold Decoder.paint
  rcases hexec : Handler.exec (Painting.decode stream width height stride) ⟨s, out⟩ with ⟨_ | _, k⟩
  · rename_i stop
    rw [hexec] at hanswers h
    cases stop with
    | refused e => exact hanswers.error e rfl
    | broken => exact absurd rfl h
  · rw [hexec] at hanswers
    exact hanswers

theorem decode_eq_pixel :
    (({} : Decoder).decode [0, 0, 4, 0, 0, 0, 0, 0, 0, 0, 0, 0, 0, 0, 1, 2, 3, 1] 1 1 [0, 0, 0, 0] 4).map
      (·.map Prod.snd) = some (.ok [1, 2, 3, 255]) := by
  rw [Decoder.decode_eq _ _ _ _ _ _ (by decide +kernel)]
  rfl

end Clear
end Codec
end Farland
