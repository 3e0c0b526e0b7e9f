/-
# The bitmap path of a connection

Bitmap updates from the Confirm Active PDU of a client to the wire. What the
client says there decides how large an update may be (`Connection::max_update_size`),
the colour depth and the configuration decide how large a tile gets, and
`FrameEncoder::encode` asserts that a tile fits an update.

A client may set its MultifragmentUpdate maxRequestSize to anything. When it
leaves no room for a tile the assertion fails, on any desktop of at least one
whole tile.

Key theorems: `room_survives`, **`survives_iff`**.
-/
import Farland.Server.FrameRuns
import Farland.Codec.Planar.Incompressible
import Farland.Proto.Capabilities
import Farland.Proto.Mcs
import Farland.Proto.X224

namespace Farland
namespace Server
namespace BitmapPath

open List Writer

open Codec.Clear (ImageView)
open Codec Proto Proto.Bitmap FrameEncoder

/-! ### The session -/

structure PointerSupport where
  colorPointerCacheSize : ℕ := 0
  pointerCacheSize : ℕ := 0
  largePointerFlags : ℕ := 0
  deriving DecidableEq

def pointerCacheSlots : ℕ := 25
def largePointerFlags : ℕ := 0x0001 ||| 0x0002

/-- What a connection keeps of the capability exchange. -/
structure Session where
  shareId : ℕ
  bitsPerPixel : ℕ
  depth : bitsPerPixel = 32 ∨ bitsPerPixel = 24 ∨ bitsPerPixel = 16
  fastpathOutput : Bool := false
  noBitmapCompressionHeader : Bool := false
  maxRequestSize : ℕ := 0
  pointer : PointerSupport := {}
  clientCapabilities : Caps.CapabilitySets := {}

def pointerSupport (caps : Caps.CapabilitySets) : PointerSupport where
  colorPointerCacheSize := (caps.pointer.map fun p => min p.colorPointerCacheSize pointerCacheSlots).getD 0
  pointerCacheSize := (caps.pointer.map fun p => min (p.pointerCacheSize.getD 0) pointerCacheSlots).getD 0
  largePointerFlags := (caps.largePointerSupportFlags.map fun flags => flags &&& largePointerFlags).getD 0

variable (s : Session)

/-- What an accepted Confirm Active changes. -/
def Session.confirmed (general : Caps.General) (caps : Caps.CapabilitySets) : Session :=
  { s with
    fastpathOutput := general.extraFlags &&& Caps.GeneralExtraFlags.fastpathOutputSupported != 0
    noBitmapCompressionHeader := general.extraFlags &&& Caps.GeneralExtraFlags.noBitmapCompressionHdr != 0
    maxRequestSize := caps.maxRequestSize.getD 0
    pointer := pointerSupport caps
    clientCapabilities := { caps with other := [] } }

/-- `Connection::on_confirm_active`, what it does to the session. -/
def onConfirmActive : Parse Session := do
  let start ← Reader.at_
  let confirm ← decodeConfirmActive
  if confirm.shareId ≠ s.shareId then Parse.fail .invalidValue "Confirm Active for another share" start
  else
    match confirm.capabilities.general, confirm.capabilities.bitmap with
    | some general, some _ => pure (s.confirmed general confirm.capabilities)
    | _, _ => Parse.fail .invalidValue "Confirm Active without general or bitmap capabilities" start

/-! ### Updates -/

def slowPathUpdateLimit : ℕ := 0x3FFF - 64
def maxFragmentSize : ℕ := 0x3FFF - 20

def maxUpdateSize : ℕ :=
  if s.fastpathOutput = false then slowPathUpdateLimit
  else if s.maxRequestSize = 0 then maxFragmentSize
  else min s.maxRequestSize (2 ^ 20)

/-- `Connection::send_bitmap_update` of an active connection, on the slow path. -/
def sendSlowPath (update : List UInt8) : Option (List UInt8) := do
  let pdu ← writeDataPdu s.shareId Mcs.serverChannelId pduType2Update update
  let indication ← Mcs.encodeSendDataIndication Mcs.serverChannelId Mcs.ioChannelId pdu
  dataTpdu indication

/-- The size of a desktop. -/
structure DesktopSize where
  width : ℕ
  height : ℕ
  valid : 0 < width ∧ 0 < height ∧ width ≤ 0xFFFF ∧ height ≤ 0xFFFF

variable (codec : BitmapCodec)

/-- The codec of the session, planar only at 32 bpp. -/
def codecOf : BitmapCodec := if s.bitsPerPixel = 32 then codec else .uncompressed

/-- The encoder that `activated` makes. -/
def setupOf (desktop : DesktopSize) : Setup where
  width := desktop.width
  height := desktop.height
  bpp := s.bitsPerPixel
  codec := codecOf s codec
  omitHeader := s.noBitmapCompressionHeader
  size := desktop.valid
  depth := s.depth
  planar := by
    intro h
    unfold codecOf at h
    split_ifs at h with hdepth
    exact hdepth

/-- A call that the desktop session makes: frames of the desktop, updates as large as the connection allows. -/
def Asked (setup : Setup) : Call → Prop
  | .encode frame size => Fitting setup frame ∧ size = maxUpdateSize s
  | .invalidate _ | .invalidateAll => True

/-- An update can be sent. -/
def Sendable (update : List UInt8) : Prop :=
  update.length ≤ maxUpdateSize s ∧ (s.fastpathOutput = false →
    ∃ tpkt, sendSlowPath s update = some tpkt ∧ tpkt.length ≤ maxTpktSize)

/-- Every encode of a run returns, with updates that can be sent. -/
def Sent : FrameEncoder → List Call → Prop
  | _, [] => True
  | e, .encode frame size :: calls => ∃ updates e', e.encode frame size = some (updates, e') ∧
      (∀ update ∈ updates, Sendable s update) ∧ Sent e' calls
  | e, .invalidate area :: calls => Sent (e.invalidate area) calls
  | e, .invalidateAll :: calls => Sent e.invalidateAll calls

/-- No run on a desktop fails. -/
def Survives (desktop : DesktopSize) : Prop :=
  ∀ calls, (∀ call ∈ calls, Asked s (setupOf s codec desktop) call) → Sent s (new (setupOf s codec desktop)) calls

/-- The most bytes a tile takes in an update. -/
def largestTile : ℕ :=
  match codecOf s codec with
  | .planar => rectHeaderSize + (if s.noBitmapCompressionHeader then 0 else compressionHeaderSize) +
      (2 + 3 * (tileSize * tileSize))
  | .uncompressed => rectHeaderSize + tileSize * rowBytes tileSize s.bitsPerPixel

/-- The largest tile fits an update. -/
def Room : Prop := updateHeaderSize + largestTile s codec ≤ maxUpdateSize s

instance (s : Session) (codec : BitmapCodec) : Decidable (Room s codec) := inferInstanceAs (Decidable (_ ≤ _))

/-! ### Enough room -/

section

variable {s : Session} {codec : BitmapCodec} {desktop : DesktopSize} {frame : ImageView} {t : ℕ × ℕ}

theorem headerSize_of_rect {rect : BitmapData} (hrect : RectOf (setupOf s codec desktop) t rect) :
    rectHeaderSize + rect.headerSize + worstTile (setupOf s codec desktop) = largestTile s codec := by
  unfold BitmapData.headerSize BitmapData.hasCompressionHeader largestTile worstTile
  rw [hrect.flags]
  unfold updateFlags
  change rectHeaderSize + (if flagsHaveHeader (match codecOf s codec with
    | .planar => BitmapFlags.compression ||| if s.noBitmapCompressionHeader then BitmapFlags.noBitmapCompressionHdr
      else 0
    | .uncompressed => 0) = true then compressionHeaderSize else 0) + (match codecOf s codec with
    | .planar => 2 + 3 * (tileSize * tileSize)
    | .uncompressed => tileSize * rowBytes tileSize s.bitsPerPixel) = _
  cases codecOf s codec with
  | planar => cases s.noBitmapCompressionHeader <;> rfl
  | uncompressed =>
    dsimp only
    rw [if_neg (by decide), add_zero]

theorem tileBytes_le (hf : Fitting (setupOf s codec desktop) frame) (ht : IsTile (setupOf s codec desktop) t) :
    tileBytes (setupOf s codec desktop) frame t ≤ largestTile s codec := by
  obtain ⟨rect, hbytes, hrect, hdata⟩ := tileBytes_spec hf ht
  have hworst := hdata.length_le ht
  have hlargest := headerSize_of_rect hrect
  rw [hbytes]
  unfold BitmapData.encodedSize
  omega

theorem maxUpdateSize_le (s : Session) : maxUpdateSize s ≤ 2 ^ 20 := by
  unfold maxUpdateSize
  split_ifs
  · decide
  · decide
  · exact min_le_right _ _

/-- A slow-path update fits its TPKT. -/
theorem sendSlowPath_some {update : List UInt8} (h : update.length ≤ slowPathUpdateLimit) :
    ∃ tpkt, sendSlowPath s update = some tpkt ∧ tpkt.length ≤ maxTpktSize := by
  unfold slowPathUpdateLimit at h
  obtain ⟨pdu, hpdu, hlength⟩ := writeDataPdu_some s.shareId Mcs.serverChannelId pduType2Update
    (by omega : update.length + 18 ≤ 0x7FFF)
  have hfits : pdu.length ≤ Per.maxLength := by
    rw [hlength]
    exact Nat.le_trans (Nat.add_le_add_right h 18) (by decide)
  have hwritten : ∃ xs, Mcs.encodeSendDataIndication Mcs.serverChannelId Mcs.ioChannelId pdu = some xs ∧
      xs.length ≤ pdu.length + 8 := Mcs.encodeSendDataIndication_some (by decide) hfits
  obtain ⟨indication, hindication, hsize⟩ := hwritten
  have hroom : indication.length + 7 ≤ maxTpktSize := by
    have hle : indication.length + 7 ≤ 0x3FFF := by omega
    exact Nat.le_trans hle (by decide)
  obtain ⟨tpkt, htpkt, htotal⟩ := dataTpdu_some hroom
  refine ⟨tpkt, ?_, by omega⟩
  rw [sendSlowPath, hpdu]
  change (Mcs.encodeSendDataIndication _ _ pdu).bind _ = _
  rw [hindication]
  exact htpkt

theorem sendable_of_carried {updates : List (List UInt8)} {rects : List BitmapData}
    (h : Carries (maxUpdateSize s) updates rects) : ∀ update ∈ updates, Sendable s update := by
  obtain ⟨groups, -, hall⟩ := h
  have hlength : ∀ update ∈ updates, update.length ≤ maxUpdateSize s := by
    intro update hmem
    obtain ⟨i, hi, rfl⟩ := getElem_of_mem hmem
    have hsame := hall.length_eq
    exact (hall.get (hsame ▸ hi) hi).2
  intro update hmem
  refine ⟨hlength update hmem, fun hslow => sendSlowPath_some ?_⟩
  have hle := hlength update hmem
  unfold maxUpdateSize at hle
  rwa [if_pos hslow] at hle

/-- With room for the largest tile no run fails. -/
theorem room_sent (hroom : Room s codec) : ∀ (calls : List Call) {e : FrameEncoder},
    e.setup = setupOf s codec desktop → Sized e → (∀ call ∈ calls, Asked s (setupOf s codec desktop) call) →
      Sent s e calls
  | [], _, _, _, _ => trivial
  | call :: calls, e, hsetup, hs, hcalls => by
    have hrest : ∀ call ∈ calls, Asked s (setupOf s codec desktop) call :=
      fun call hmem => hcalls call (mem_cons_of_mem _ hmem)
    have hcall := hcalls call mem_cons_self
    cases call with
    | encode frame size =>
      obtain ⟨hf, rfl⟩ := hcall
      have hmax : HoldsTiles e.setup frame (maxUpdateSize s) := by
        intro t ht
        rw [hsetup] at ht ⊢
        exact Nat.le_trans (Nat.add_le_add_left (tileBytes_le hf ht) _) hroom
      have hsmall : maxUpdateSize s < updateHeaderSize + (maxRectangles + 1) * rectHeaderSize :=
        Nat.lt_of_le_of_lt (maxUpdateSize_le s) (by decide)
      have hcount := frameCountable_of_size (hsetup ▸ hf) hmax hsmall
      obtain ⟨updates, e', rects, hencode, hencoded⟩ := encode_spec hs (hsetup ▸ hf) hmax hcount
      exact ⟨updates, e', hencode, sendable_of_carried hencoded.carries,
        room_sent hroom calls (hencoded.collected.setup.trans hsetup) hencoded.collected.sized hrest⟩
    | invalidate area =>
      obtain ⟨hsized, hsame, -⟩ := invalidate_spec hs area
      unfold Sent
      exact room_sent hroom calls (hsame.trans hsetup) hsized hrest
    | invalidateAll =>
      unfold Sent
      refine room_sent hroom calls hsetup ⟨hs.previous, ?_⟩ hrest
      change (List.map _ _).length = _
      rw [length_map]
      exact hs.dirty

theorem room_survives (hroom : Room s codec) (desktop : DesktopSize) : Survives s codec desktop :=
  fun calls hcalls => room_sent hroom calls rfl (new_sized _) hcalls

/-! ### Too little room -/

variable (setup : Setup)

/-- A frame of stripes. -/
def stripedFrame : ImageView where
  data := (List.range setup.height).flatMap fun y => (List.range setup.width).flatMap fun x =>
    List.replicate bytesPerSourcePixel (Planar.stripe x y)
  width := setup.width
  height := setup.height
  stride := setup.width * bytesPerSourcePixel

theorem stripedRow_length (y : ℕ) : ((List.range setup.width).flatMap fun x =>
    List.replicate bytesPerSourcePixel (Planar.stripe x y)).length = setup.width * bytesPerSourcePixel :=
  Rows.length_flatMap_range setup.width fun _ _ => length_replicate

theorem stripedFrame_fitting : Fitting setup (stripedFrame setup) where
  width := rfl
  height := rfl
  stride := Nat.le_refl _
  data := by
    have hheight := setup.size.2.1
    have hlength : (stripedFrame setup).data.length = setup.height * (setup.width * bytesPerSourcePixel) :=
      Rows.length_flatMap_range setup.height fun y _ => stripedRow_length setup y
    rw [hlength]
    change (setup.height - 1) * (setup.width * bytesPerSourcePixel) + setup.width * bytesPerSourcePixel ≤ _
    rw [← Nat.succ_mul, Nat.succ_eq_add_one, Nat.sub_add_cancel hheight]

theorem sample_stripedFrame {x y b : ℕ} (hx : x < setup.width) (hy : y < setup.height) (hb : b < bytesPerSourcePixel) :
    Planar.sample (stripedFrame setup) x y b = Planar.stripe x y := by
  have hin : x * bytesPerSourcePixel + b < setup.width * bytesPerSourcePixel := by
    unfold bytesPerSourcePixel at *
    omega
  unfold Planar.sample stripedFrame
  rw [add_assoc]
  change ((List.range setup.height).flatMap _).getD (y * (setup.width * bytesPerSourcePixel) +
    (x * bytesPerSourcePixel + b)) 0 = _
  rw [Rows.getD_flatMap_range (fun y _ => stripedRow_length setup y) hy hin,
    Rows.getD_flatMap_range (fun _ _ => length_replicate) hx hb, getD_eq_getElem?_getD,
    getElem?_replicate_of_lt hb]
  rfl

/-- The first tile of a desktop that has a whole one. -/
theorem firstTile (hwidth : tileSize ≤ setup.width) (hheight : tileSize ≤ setup.height) :
    IsTile setup (0, 0) ∧ setup.visibleWidth 0 = tileSize ∧ setup.tileHeight 0 = tileSize ∧
      setup.paddedWidth 0 = tileSize := by
  refine ⟨⟨(tilesX_spec setup).mpr ?_, (tilesY_spec setup).mpr ?_⟩, ?_⟩
  · exact lt_of_lt_of_le (by decide) hwidth
  · exact lt_of_lt_of_le (by decide) hheight
  · unfold Setup.paddedWidth Setup.visibleWidth Setup.tileHeight tileSize at *
    omega

theorem firstTile_striped {setup : Setup} (hwidth : tileSize ≤ setup.width) (hheight : tileSize ≤ setup.height) :
    Planar.Striped (tileView setup (stripedFrame setup) (0, 0)) := by
  obtain ⟨ht, hvisible, htall, hpadded⟩ := firstTile setup hwidth hheight
  intro x y b hx hy hb
  have hx' : x < tileSize := hpadded ▸ hx
  have hy' : y < tileSize := htall ▸ hy
  have hcopy := copyTile_getD (stripedFrame_fitting setup) (tile_part ht) (hvisible ▸ hx') (htall ▸ hy')
    (lt_trans hb (by decide))
  rw [Nat.zero_mul, zero_add, zero_add, sample_stripedFrame setup (by omega) (by omega)
    (lt_trans hb (by decide)), ← add_assoc] at hcopy
  exact hcopy

theorem tileData_of_encodeTile {setup : Setup} {tx ty : ℕ} {tile : EncodedTile}
    (h : encodeTile setup frame tx ty = some tile) : tileData setup frame tx ty = some tile.data := by
  unfold encodeTile at h
  obtain ⟨data, hdata, htile⟩ := Option.bind_eq_some_iff.mp h
  rw [hdata, ← Option.some.inj htile]

/-- Stripes take the most bytes there are. -/
theorem tileBytes_striped (hwidth : tileSize ≤ desktop.width) (hheight : tileSize ≤ desktop.height) :
    tileBytes (setupOf s codec desktop) (stripedFrame (setupOf s codec desktop)) (0, 0) = largestTile s codec := by
  have hf := stripedFrame_fitting (setupOf s codec desktop)
  obtain ⟨ht, -, htall, hpadded⟩ := firstTile (setupOf s codec desktop) hwidth hheight
  obtain ⟨tile, htile, hrect, hdata, -⟩ := encodeTile_spec hf ht
  have hlargest := headerSize_of_rect hrect
  have hlength : (rectOf (setupOf s codec desktop) tile).data.length = worstTile (setupOf s codec desktop) := by
    have htileData := tileData_of_encodeTile htile
    unfold tileData at htileData
    unfold worstTile
    cases hcodec : (setupOf s codec desktop).codec with
    | planar =>
      rw [hcodec] at htileData
      have hview := tileView_valid hf ht
      have hpadded' : (tileView (setupOf s codec desktop) (stripedFrame (setupOf s codec desktop)) (0, 0)).width =
          tileSize := hpadded
      have htall' : (tileView (setupOf s codec desktop) (stripedFrame (setupOf s codec desktop)) (0, 0)).height =
          tileSize := htall
      obtain ⟨bytes, hbytes, hsize⟩ := Planar.encode_striped hview (firstTile_striped hwidth hheight)
        (by rw [htall']; decide) (by rw [htall']; decide)
      obtain rfl : bytes = tile.data := Option.some.inj (hbytes.symm.trans htileData)
      refine hsize.trans ?_
      rw [hpadded', htall']
      rfl
    | uncompressed =>
      rw [hcodec] at htileData
      obtain hsame := Option.some.inj htileData
      change tile.data.length = _
      rw [← hsame, uncompressed_length (setupOf s codec desktop).depth, htall, hpadded]
  unfold tileBytes
  rw [htile]
  change (rectOf (setupOf s codec desktop) tile).encodedSize = _
  unfold BitmapData.encodedSize
  rw [hlength]
  exact hlargest

/-- **Without room a desktop of a whole tile fails.** -/
theorem room_of_survives (hwidth : tileSize ≤ desktop.width) (hheight : tileSize ≤ desktop.height)
    (h : Survives s codec desktop) : Room s codec := by
  by_contra hroom
  have hf := stripedFrame_fitting (setupOf s codec desktop)
  have ht := (firstTile (setupOf s codec desktop) hwidth hheight).1
  have hsent : (0, 0) ∈ (new (setupOf s codec desktop)).sentTiles (stripedFrame (setupOf s codec desktop)) := by
    refine mem_filter.mpr ⟨(mem_tiles _).mpr ht, ?_⟩
    unfold sends
    rw [Bool.or_eq_true]
    exact .inl (new_isDirty ht)
  have hlarge : maxUpdateSize s < updateHeaderSize +
      tileBytes (setupOf s codec desktop) (stripedFrame (setupOf s codec desktop)) (0, 0) := by
    rw [tileBytes_striped hwidth hheight]
    exact not_le.mp hroom
  have hnone := encode_too_large (new_sized (setupOf s codec desktop)) hf hsent hlarge
  have hrun := h [.encode (stripedFrame (setupOf s codec desktop)) (maxUpdateSize s)] (by
    intro call hcall
    rw [mem_singleton.mp hcall]
    exact ⟨hf, rfl⟩)
  obtain ⟨updates, e', hencode, -⟩ := hrun
  rw [hnone] at hencode
  cases hencode

/-! ### A Confirm Active -/

theorem onConfirmActive_ok {r r' : Reader} {s' : Session} (h : onConfirmActive s r = .ok (s', r')) :
    ∃ confirm general, decodeConfirmActive r = .ok (confirm, r') ∧ confirm.capabilities.general = some general ∧
      s' = s.confirmed general confirm.capabilities := by
  unfold onConfirmActive at h
  obtain ⟨start, r₁, hstart, h⟩ := Parse.of_bind_ok h
  obtain ⟨rfl, rfl⟩ : r.offset = start ∧ r = r₁ := by
    cases hstart
    exact ⟨rfl, rfl⟩
  obtain ⟨confirm, r₂, hconfirm, h⟩ := Parse.of_bind_ok h
  by_cases hshare : confirm.shareId ≠ s.shareId
  · rw [if_pos hshare] at h
    cases h
  · rw [if_neg hshare] at h
    cases hgeneral : confirm.capabilities.general with
    | none =>
      rw [hgeneral] at h
      cases h
    | some general =>
      cases hbitmap : confirm.capabilities.bitmap with
      | none =>
        rw [hgeneral, hbitmap] at h
        cases h
      | some bitmap =>
        rw [hgeneral, hbitmap] at h
        cases h
        exact ⟨confirm, general, hconfirm, hgeneral, rfl⟩

/-- A desktop of one tile. -/
def tileDesktop : DesktopSize := ⟨tileSize, tileSize, by decide⟩

/-- **Every run on every desktop is sent** if and only if the client left room
for the largest tile; and any one desktop of at least a whole tile tells. -/
theorem survives_iff {r r' : Reader} {s' : Session} (h : onConfirmActive s r = .ok (s', r')) (codec : BitmapCodec) :
    (∃ confirm general, decodeConfirmActive r = .ok (confirm, r') ∧ confirm.capabilities.general = some general ∧
      s' = s.confirmed general confirm.capabilities) ∧
    ((∀ desktop, Survives s' codec desktop) ↔ Room s' codec) ∧
    ∀ desktop : DesktopSize, tileSize ≤ desktop.width → tileSize ≤ desktop.height →
      (Survives s' codec desktop ↔ Room s' codec) := by
  refine ⟨onConfirmActive_ok h, ⟨fun hall => ?_, fun hroom desktop => room_survives hroom desktop⟩,
    fun desktop hwidth hheight => ⟨room_of_survives hwidth hheight, fun hroom => room_survives hroom desktop⟩⟩
  exact room_of_survives (le_refl _) (le_refl _) (hall tileDesktop)

/-- A Confirm Active with these flags and this maxRequestSize. -/
def confirmActive (extraFlags maxRequestSize : ℕ) : List UInt8 :=
  u32le 0x000103EA ++ u16le 0x03EA ++ u16le 6 ++ u16le 64 ++ text "MSTSC" ++ [0] ++
    u16le 3 ++ u16le 0 ++
    (u16le 1 ++ u16le 24 ++ u16le 1 ++ u16le 3 ++ u16le 0x0200 ++ zeros 4 ++
      u16le extraFlags ++ zeros 6 ++ [1, 1]) ++
    (u16le 2 ++ u16le 28 ++ u16le 32 ++ zeros 6 ++ u16le 1920 ++ u16le 1080 ++
      zeros 12) ++
    (u16le 26 ++ u16le 8 ++ u32le maxRequestSize)

/-- A client of 32 bpp before its Confirm Active. -/
def waiting : Session where
  shareId := 0x000103EA
  bitsPerPixel := 32
  depth := .inl rfl

/-- What a Confirm Active with both flags tells of update sizes. -/
def Tells (maxRequestSize : ℕ) : Result (Session × Reader) → Bool
  | .ok (s, _) => s.bitsPerPixel == 32 && s.fastpathOutput && s.noBitmapCompressionHeader &&
      s.maxRequestSize == maxRequestSize
  | .error _ => false

theorem limit_of_tells {maxRequestSize : ℕ} {result : Result (Session × Reader)}
    (h : Tells maxRequestSize result = true) :
    ∃ s' r', result = .ok (s', r') ∧ largestTile s' .planar = 12308 ∧
      maxUpdateSize s' = if maxRequestSize = 0 then maxFragmentSize else min maxRequestSize (2 ^ 20) := by
  cases result with
  | error _ => cases h
  | ok p =>
    obtain ⟨s', r'⟩ := p
    simp only [Tells, Bool.and_eq_true, beq_iff_eq] at h
    obtain ⟨⟨⟨hdepth, hfast⟩, hheader⟩, hsize⟩ := h
    refine ⟨s', r', rfl, ?_, ?_⟩
    · unfold largestTile codecOf
      rw [if_pos hdepth, hheader]
      rfl
    · unfold maxUpdateSize
      rw [hfast, hsize, if_neg (by decide)]

/-- A client that takes updates of a megabyte. -/
theorem roomy_survives : ∃ s' r', onConfirmActive waiting ⟨confirmActive 0x0401 (2 ^ 20), 0⟩ = .ok (s', r') ∧
    ∀ desktop, Survives s' .planar desktop := by
  have htells : Tells (2 ^ 20) (onConfirmActive waiting ⟨confirmActive 0x0401 (2 ^ 20), 0⟩) = true := by decide +kernel
  obtain ⟨s', r', haccepted, hlargest, hlimit⟩ := limit_of_tells htells
  refine ⟨s', r', haccepted, (survives_iff haccepted .planar).2.1.mpr ?_⟩
  unfold Room
  rw [hlargest, hlimit]
  decide

/-- **A client that takes updates of one byte** makes a whole tile fail. -/
theorem tiny_fails : ∃ s' r', onConfirmActive waiting ⟨confirmActive 0x0401 1, 0⟩ = .ok (s', r') ∧
    ¬ Survives s' .planar tileDesktop := by
  have htells : Tells 1 (onConfirmActive waiting ⟨confirmActive 0x0401 1, 0⟩) = true := by decide +kernel
  obtain ⟨s', r', haccepted, hlargest, hlimit⟩ := limit_of_tells htells
  refine ⟨s', r', haccepted, fun h => ?_⟩
  have hroom : Room s' .planar := room_of_survives (by decide) (by decide) h
  unfold Room at hroom
  rw [hlargest, hlimit] at hroom
  revert hroom
  decide

end

end BitmapPath
end Server
end Farland
