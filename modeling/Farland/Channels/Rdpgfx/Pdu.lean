/-
# RDPGFX messages

The graphics messages of the Graphics Pipeline Extension and their codecs
(`channels/rdpgfx.hpp`, `channels/rdpgfx.cpp`). Decoding is a `Parse`;
encoding is `none` where a checked count or length does not fit its field.
Integer fields are naturals that the codecs keep within their widths.
-/
import Farland.Base.Reader

namespace Farland
namespace Channels
namespace Rdpgfx

/-! ### Constants -/

namespace Cmd

def wireToSurface1 : ℕ := 0x0001
def wireToSurface2 : ℕ := 0x0002
def deleteEncodingContext : ℕ := 0x0003
def solidFill : ℕ := 0x0004
def surfaceToSurface : ℕ := 0x0005
def surfaceToCache : ℕ := 0x0006
def cacheToSurface : ℕ := 0x0007
def evictCacheEntry : ℕ := 0x0008
def createSurface : ℕ := 0x0009
def deleteSurface : ℕ := 0x000A
def startFrame : ℕ := 0x000B
def endFrame : ℕ := 0x000C
def frameAcknowledge : ℕ := 0x000D
def resetGraphics : ℕ := 0x000E
def mapSurfaceToOutput : ℕ := 0x000F
def cacheImportOffer : ℕ := 0x0010
def cacheImportReply : ℕ := 0x0011
def capsAdvertise : ℕ := 0x0012
def capsConfirm : ℕ := 0x0013
def mapSurfaceToWindow : ℕ := 0x0015
def qoeFrameAcknowledge : ℕ := 0x0016
def mapSurfaceToScaledOutput : ℕ := 0x0017
def mapSurfaceToScaledWindow : ℕ := 0x0018

end Cmd

namespace CodecId

def uncompressed : ℕ := 0x0000
/-- RemoteFX. -/
def cavideo : ℕ := 0x0003
def clearcodec : ℕ := 0x0008
/-- WireToSurface2 only. -/
def progressive : ℕ := 0x0009
def planar : ℕ := 0x000A
def avc420 : ℕ := 0x000B
def alpha : ℕ := 0x000C
def avc444 : ℕ := 0x000E
def avc444v2 : ℕ := 0x000F

end CodecId

namespace PixelFormat

def xrgb8888 : ℕ := 0x20
def argb8888 : ℕ := 0x21

end PixelFormat

/-- RDPGFX_PIXELFORMAT, 2.2.1.4. -/
def validPixelFormat (format : ℕ) : Bool := format == PixelFormat.xrgb8888 || format == PixelFormat.argb8888

namespace CapVersion

def v8 : ℕ := 0x00080004
def v8_1 : ℕ := 0x00080105
def v10 : ℕ := 0x000A0002
/-- No flags, but 16 reserved bytes. -/
def v10_1 : ℕ := 0x000A0100
def v10_2 : ℕ := 0x000A0200
def v10_3 : ℕ := 0x000A0301
def v10_4 : ℕ := 0x000A0400
def v10_5 : ℕ := 0x000A0502
def v10_6 : ℕ := 0x000A0600
/-- What older revisions of the specification gave for 10.6. -/
def v10_6_err : ℕ := 0x000A0601
def v10_7 : ℕ := 0x000A0701

end CapVersion

namespace CapsFlag

/-- 8.0 and 8.1. -/
def thinClient : ℕ := 0x00000001
/-- 8.0 to 10.2 and 10.4 to 10.7. -/
def smallCache : ℕ := 0x00000002
/-- 8.1. -/
def avc420Enabled : ℕ := 0x00000010
/-- 10.0, and 10.2 and later. -/
def avcDisabled : ℕ := 0x00000020
/-- 10.3 and later. -/
def avcThinClient : ℕ := 0x00000040
/-- 10.7. -/
def scaledmapDisable : ℕ := 0x00000080

end CapsFlag

/-- RDPGFX_HEADER. -/
def headerSize : ℕ := 8
/-- A ResetGraphics is always exactly this long, 2.2.2.14. -/
def resetGraphicsPduSize : ℕ := 340
/-- [MS-RDPBCGR] 2.2.1.3.6. -/
def maxMonitors : ℕ := 16
/-- Largest width and height of the Graphics Output Buffer. -/
def maxOutputSize : ℕ := 32766
/-- cacheEntriesCount "MUST be less than 5462", 2.2.2.16. -/
def maxCacheImportEntries : ℕ := 5461
/-- Slots of the 100 MB cache; the first is 1 (3.3.1.4). -/
def maxCacheSlots : ℕ := 25600
/-- Slots of the 16 MB cache. -/
def maxCacheSlotsSmall : ℕ := 4096
/-- Bytes of the bitmap cache. -/
def cacheSize : ℕ := 100 * 1024 * 1024
/-- With SMALL_CACHE, THINCLIENT or version 10.3. -/
def cacheSizeSmall : ℕ := 16 * 1024 * 1024
/-- A queueDepth, 2.2.2.13. -/
def suspendFrameAcknowledgement : ℕ := 0xFFFFFFFF
/-- Clients offer about a dozen capability sets. -/
def maxCapsSets : ℕ := 64
/-- Longest capsData of a version the specification does not define. -/
def maxUnknownCapsDataLength : ℕ := 256
/-- A CacheImportOffer with all its entries. -/
def maxClientPduSize : ℕ := headerSize + 2 + maxCacheImportEntries * 12

/-- RDPGFX_RECT16. -/
def rect16Size : ℕ := 8
/-- RDPGFX_POINT16. -/
def point16Size : ℕ := 4
/-- TS_MONITOR_DEF. -/
def monitorDefSize : ℕ := 20
/-- A key of 64 bits and a length. -/
def cacheEntrySize : ℕ := 12
def cacheSlotSize : ℕ := 2
/-- Version and length. -/
def capsSetHeaderSize : ℕ := 8
/-- Width, height and count. -/
def resetGraphicsFixedSize : ℕ := 12
/-- One field of flags. -/
def capsDataLengthFlags : ℕ := 4
/-- Reserved bytes. -/
def capsDataLengthV10_1 : ℕ := 16

/-! ### Common data types -/

/-- A point with signed 16-bit coordinates. -/
structure Point16 where
  x : ℤ
  y : ℤ
  deriving DecidableEq

/-- A rectangle with exclusive right and bottom bounds. -/
structure Rect16 where
  left : ℕ
  top : ℕ
  right : ℕ
  bottom : ℕ
  deriving DecidableEq

namespace Rect16

/-- Empty or inverted. -/
def empty (r : Rect16) : Bool := r.left ≥ r.right || r.top ≥ r.bottom
/-- Empty rectangles have none. -/
def width (r : Rect16) : ℕ := if r.empty then 0 else r.right - r.left
/-- As `width`. -/
def height (r : Rect16) : ℕ := if r.empty then 0 else r.bottom - r.top

end Rect16

/-- RDPGFX_COLOR32, 2.2.1.3: B, G, R, XA on the wire. -/
structure Color32 where
  b : ℕ
  g : ℕ
  r : ℕ
  xa : ℕ
  deriving DecidableEq

/-- TS_MONITOR_DEF: inclusive bounds in virtual desktop coordinates. -/
structure MonitorDef where
  left : ℤ
  top : ℤ
  right : ℤ
  bottom : ℤ
  flags : ℕ
  deriving DecidableEq

/-- TS_MONITOR_PRIMARY. -/
def monitorPrimary : ℕ := 0x00000001

/-- A capability set; `unknownData` is the capsData of a version the
specification does not define. -/
structure CapabilitySet where
  version : ℕ
  flags : ℕ := 0
  unknownData : List UInt8 := []
  deriving DecidableEq

/-- RDPGFX_CACHE_ENTRY_METADATA, 2.2.2.16.1. -/
structure CacheEntryMetadata where
  cacheKey : ℕ
  bitmapLength : ℕ
  deriving DecidableEq

/-- The capsDataLength of a version the specification defines. -/
def capsDataLength (version : ℕ) : Option ℕ :=
  if version = CapVersion.v10_1 then some capsDataLengthV10_1
  else if version ∈ [CapVersion.v8, CapVersion.v8_1, CapVersion.v10, CapVersion.v10_2, CapVersion.v10_3,
      CapVersion.v10_4, CapVersion.v10_5, CapVersion.v10_6, CapVersion.v10_6_err, CapVersion.v10_7] then
    some capsDataLengthFlags
  else none

/-- The flags 2.2.3 defines for a version. -/
def definedCapsFlags (version : ℕ) : ℕ :=
  if version = CapVersion.v8 then CapsFlag.thinClient ||| CapsFlag.smallCache
  else if version = CapVersion.v8_1 then CapsFlag.thinClient ||| CapsFlag.smallCache ||| CapsFlag.avc420Enabled
  else if version ∈ [CapVersion.v10, CapVersion.v10_2] then CapsFlag.smallCache ||| CapsFlag.avcDisabled
  else if version = CapVersion.v10_3 then CapsFlag.avcDisabled ||| CapsFlag.avcThinClient
  else if version ∈ [CapVersion.v10_4, CapVersion.v10_5, CapVersion.v10_6, CapVersion.v10_6_err] then
    CapsFlag.smallCache ||| CapsFlag.avcDisabled ||| CapsFlag.avcThinClient
  else if version = CapVersion.v10_7 then
    CapsFlag.smallCache ||| CapsFlag.avcDisabled ||| CapsFlag.avcThinClient ||| CapsFlag.scaledmapDisable
  else 0

/-- Of an undefined version, the capsData are the four bytes of the flags. -/
def makeCapabilitySet (version flags : ℕ) : CapabilitySet :=
  if version = CapVersion.v10_1 then { version := version }
  else if (capsDataLength version).isNone then { version := version, flags := flags, unknownData := Writer.u32le flags }
  else { version := version, flags := flags }

/-- Milliseconds, seconds, minutes and hours in 10, 6, 6 and 10 bits. -/
def validTimestamp (timestamp : ℕ) : Bool :=
  timestamp &&& 0x3FF ≤ 999 && (timestamp >>> 10) &&& 0x3F ≤ 59 && (timestamp >>> 16) &&& 0x3F ≤ 59 &&
    timestamp >>> 22 ≤ 23

/-- The graphics messages of both directions. -/
inductive Pdu where
  | wireToSurface1 (surfaceId codecId pixelFormat : ℕ) (destRect : Rect16) (bitmapData : List UInt8)
  | wireToSurface2 (surfaceId codecId codecContextId pixelFormat : ℕ) (bitmapData : List UInt8)
  | deleteEncodingContext (surfaceId codecContextId : ℕ)
  | solidFill (surfaceId : ℕ) (fillPixel : Color32) (fillRects : List Rect16)
  | surfaceToSurface (surfaceIdSrc surfaceIdDest : ℕ) (rectSrc : Rect16) (destPts : List Point16)
  | surfaceToCache (surfaceId cacheKey cacheSlot : ℕ) (rectSrc : Rect16)
  | cacheToSurface (cacheSlot surfaceId : ℕ) (destPts : List Point16)
  | evictCacheEntry (cacheSlot : ℕ)
  | createSurface (surfaceId width height pixelFormat : ℕ)
  | deleteSurface (surfaceId : ℕ)
  | startFrame (timestamp frameId : ℕ)
  | endFrame (frameId : ℕ)
  | frameAcknowledge (queueDepth frameId totalFramesDecoded : ℕ)
  | resetGraphics (width height : ℕ) (monitors : List MonitorDef)
  | mapSurfaceToOutput (surfaceId outputOriginX outputOriginY : ℕ)
  | cacheImportOffer (entries : List CacheEntryMetadata)
  | cacheImportReply (cacheSlots : List ℕ)
  | capsAdvertise (capsSets : List CapabilitySet)
  | capsConfirm (capsSet : CapabilitySet)
  | mapSurfaceToWindow (surfaceId windowId mappedWidth mappedHeight : ℕ)
  | qoeFrameAcknowledge (frameId timestamp timeDiffSe timeDiffEdr : ℕ)
  | mapSurfaceToScaledOutput (surfaceId outputOriginX outputOriginY targetWidth targetHeight : ℕ)
  | mapSurfaceToScaledWindow (surfaceId windowId mappedWidth mappedHeight targetWidth targetHeight : ℕ)
  deriving DecidableEq

/-- The cmdId a message is encoded with. -/
def cmdId : Pdu → ℕ
  | .wireToSurface1 .. => Cmd.wireToSurface1
  | .wireToSurface2 .. => Cmd.wireToSurface2
  | .deleteEncodingContext .. => Cmd.deleteEncodingContext
  | .solidFill .. => Cmd.solidFill
  | .surfaceToSurface .. => Cmd.surfaceToSurface
  | .surfaceToCache .. => Cmd.surfaceToCache
  | .cacheToSurface .. => Cmd.cacheToSurface
  | .evictCacheEntry .. => Cmd.evictCacheEntry
  | .createSurface .. => Cmd.createSurface
  | .deleteSurface .. => Cmd.deleteSurface
  | .startFrame .. => Cmd.startFrame
  | .endFrame .. => Cmd.endFrame
  | .frameAcknowledge .. => Cmd.frameAcknowledge
  | .resetGraphics .. => Cmd.resetGraphics
  | .mapSurfaceToOutput .. => Cmd.mapSurfaceToOutput
  | .cacheImportOffer .. => Cmd.cacheImportOffer
  | .cacheImportReply .. => Cmd.cacheImportReply
  | .capsAdvertise .. => Cmd.capsAdvertise
  | .capsConfirm .. => Cmd.capsConfirm
  | .mapSurfaceToWindow .. => Cmd.mapSurfaceToWindow
  | .qoeFrameAcknowledge .. => Cmd.qoeFrameAcknowledge
  | .mapSurfaceToScaledOutput .. => Cmd.mapSurfaceToScaledOutput
  | .mapSurfaceToScaledWindow .. => Cmd.mapSurfaceToScaledWindow

/-! ### Decoding -/

open Reader

/-- `count` elements of at least `elementSize` bytes each, after checking
that they fit in the rest of the PDU. -/
def readArray {α : Type} (count elementSize : ℕ) (readOne : Parse α) : Parse (List α) := fun r =>
  if count > r.remaining / elementSize then
    fail .truncated "array extends past the end of the PDU" r.offset
  else readMany readOne count r

/-- Empty and inverted rectangles are refused. -/
def readRect16 : Parse Rect16 := do
  let start ← at_
  let left ← u16le
  let top ← u16le
  let right ← u16le
  let bottom ← u16le
  let rect : Rect16 := ⟨left, top, right, bottom⟩
  if rect.empty then Parse.fail .invalidValue "empty or inverted RDPGFX_RECT16" start
  else pure rect

/-- RDPGFX_POINT16, 2.2.1.1, with signed coordinates. -/
def readPoint16 : Parse Point16 := do
  let x ← u16le
  let y ← u16le
  pure ⟨toSigned 16 x, toSigned 16 y⟩

def readColor32 : Parse Color32 := do
  let b ← u8
  let g ← u8
  let r ← u8
  let xa ← u8
  pure ⟨b, g, r, xa⟩

/-- Only the two formats there are. -/
def readPixelFormat : Parse ℕ := do
  let start ← at_
  let format ← u8
  if !validPixelFormat format then Parse.fail .invalidValue "unknown RDPGFX_PIXELFORMAT" start
  else pure format

/-- Slots are one-based. -/
def readCacheSlot : Parse ℕ := do
  let start ← at_
  let slot ← u16le
  if slot = 0 ∨ slot > maxCacheSlots then Parse.fail .invalidValue "cacheSlot outside 1 to 25600" start
  else pure slot

/-- A length of 32 bits and so many bytes. -/
def readBitmapData : Parse (List UInt8) := do
  let length ← u32le
  bytes length

/-- Signed bounds and the flags. -/
def readMonitorDef : Parse MonitorDef := do
  let left ← u32le
  let top ← u32le
  let right ← u32le
  let bottom ← u32le
  let flags ← u32le
  pure ⟨toSigned 32 left, toSigned 32 top, toSigned 32 right, toSigned 32 bottom, flags⟩

/-- RDPGFX_CAPSET, 2.2.1.6. Of an undefined version the capsData are kept as sent,
and the flags are the first four bytes, if there are so many. -/
def readCapabilitySet : Parse CapabilitySet := do
  let version ← u32le
  let start ← at_
  let length ← u32le
  match capsDataLength version with
  | some expected =>
    if length ≠ expected then
      Parse.fail .invalidLength "capsDataLength does not match the capability set version" start
    else
      let data ← sub length
      if version ≠ CapVersion.v10_1 then
        match u32le data with
        | .ok (flags, _) => pure { version := version, flags := flags }
        | .error e => fun _ => .error e
      else pure { version := version }
  | none =>
    if length > maxUnknownCapsDataLength then
      Parse.fail .limitExceeded "capsDataLength of an unknown capability set version" start
    else
      let data ← bytes length
      if data.length ≥ 4 then
        match u32le ⟨data, 0⟩ with
        | .ok (flags, _) => pure { version := version, flags := flags, unknownData := data }
        | .error e => fun _ => .error e
      else pure { version := version, unknownData := data }

def readCacheEntry : Parse CacheEntryMetadata := do
  let cacheKey ← u64le
  let bitmapLength ← u32le
  pure ⟨cacheKey, bitmapLength⟩

/-- 2.2.2.1, to the client. -/
def decodeWireToSurface1 : Parse Pdu := do
  let surfaceId ← u16le
  let codecId ← u16le
  let pixelFormat ← readPixelFormat
  let destRect ← readRect16
  let bitmapData ← readBitmapData
  expectEnd "RDPGFX_WIRE_TO_SURFACE_PDU_1 longer than its bitmapData"
  pure (.wireToSurface1 surfaceId codecId pixelFormat destRect bitmapData)

/-- 2.2.2.2, to the client. -/
def decodeWireToSurface2 : Parse Pdu := do
  let surfaceId ← u16le
  let codecId ← u16le
  let codecContextId ← u32le
  let pixelFormat ← readPixelFormat
  let bitmapData ← readBitmapData
  expectEnd "RDPGFX_WIRE_TO_SURFACE_PDU_2 longer than its bitmapData"
  pure (.wireToSurface2 surfaceId codecId codecContextId pixelFormat bitmapData)

/-- 2.2.2.3. -/
def decodeDeleteEncodingContext : Parse Pdu := do
  let surfaceId ← u16le
  let codecContextId ← u32le
  expectEnd "RDPGFX_DELETE_ENCODING_CONTEXT_PDU"
  pure (.deleteEncodingContext surfaceId codecContextId)

/-- 2.2.2.4. -/
def decodeSolidFill : Parse Pdu := do
  let surfaceId ← u16le
  let fillPixel ← readColor32
  let count ← u16le
  let fillRects ← readArray count rect16Size readRect16
  expectEnd "RDPGFX_SOLIDFILL_PDU"
  pure (.solidFill surfaceId fillPixel fillRects)

/-- 2.2.2.5. -/
def decodeSurfaceToSurface : Parse Pdu := do
  let surfaceIdSrc ← u16le
  let surfaceIdDest ← u16le
  let rectSrc ← readRect16
  let count ← u16le
  let destPts ← readArray count point16Size readPoint16
  expectEnd "RDPGFX_SURFACE_TO_SURFACE_PDU"
  pure (.surfaceToSurface surfaceIdSrc surfaceIdDest rectSrc destPts)

/-- 2.2.2.6. -/
def decodeSurfaceToCache : Parse Pdu := do
  let surfaceId ← u16le
  let cacheKey ← u64le
  let cacheSlot ← readCacheSlot
  let rectSrc ← readRect16
  expectEnd "RDPGFX_SURFACE_TO_CACHE_PDU"
  pure (.surfaceToCache surfaceId cacheKey cacheSlot rectSrc)

/-- 2.2.2.7. -/
def decodeCacheToSurface : Parse Pdu := do
  let cacheSlot ← readCacheSlot
  let surfaceId ← u16le
  let count ← u16le
  let destPts ← readArray count point16Size readPoint16
  expectEnd "RDPGFX_CACHE_TO_SURFACE_PDU"
  pure (.cacheToSurface cacheSlot surfaceId destPts)

/-- 2.2.2.8. -/
def decodeEvictCacheEntry : Parse Pdu := do
  let cacheSlot ← readCacheSlot
  expectEnd "RDPGFX_EVICT_CACHE_ENTRY_PDU"
  pure (.evictCacheEntry cacheSlot)

/-- 2.2.2.9; an empty surface is refused. -/
def decodeCreateSurface : Parse Pdu := do
  let surfaceId ← u16le
  let start ← at_
  let width ← u16le
  let height ← u16le
  if width = 0 ∨ height = 0 then
    Parse.fail .invalidValue "RDPGFX_CREATE_SURFACE_PDU with an empty surface" start
  else
    let pixelFormat ← readPixelFormat
    expectEnd "RDPGFX_CREATE_SURFACE_PDU"
    pure (.createSurface surfaceId width height pixelFormat)

/-- 2.2.2.10. -/
def decodeDeleteSurface : Parse Pdu := do
  let surfaceId ← u16le
  expectEnd "RDPGFX_DELETE_SURFACE_PDU"
  pure (.deleteSurface surfaceId)

/-- 2.2.2.11. -/
def decodeStartFrame : Parse Pdu := do
  let timestamp ← u32le
  let frameId ← u32le
  expectEnd "RDPGFX_START_FRAME_PDU"
  pure (.startFrame timestamp frameId)

/-- 2.2.2.12. -/
def decodeEndFrame : Parse Pdu := do
  let frameId ← u32le
  expectEnd "RDPGFX_END_FRAME_PDU"
  pure (.endFrame frameId)

/-- 2.2.2.13, to the server. -/
def decodeFrameAcknowledge : Parse Pdu := do
  let queueDepth ← u32le
  let frameId ← u32le
  let totalFramesDecoded ← u32le
  expectEnd "RDPGFX_FRAME_ACKNOWLEDGE_PDU"
  pure (.frameAcknowledge queueDepth frameId totalFramesDecoded)

/-- The body, behind a header at offset 0; the padding is ignored. -/
def decodeResetGraphics : Parse Pdu := fun r0 =>
  if r0.offset + r0.remaining ≠ resetGraphicsPduSize then
    fail .invalidLength "RDPGFX_RESET_GRAPHICS_PDU is not 340 bytes" 0
  else (do
    let start ← at_
    let width ← u32le
    let height ← u32le
    if width = 0 ∨ height = 0 ∨ width > maxOutputSize ∨ height > maxOutputSize then
      Parse.fail .invalidValue "RDPGFX_RESET_GRAPHICS_PDU size outside 1 to 32766" start
    else
      let countAt ← at_
      let count ← u32le
      if count > maxMonitors then
        Parse.fail .invalidValue "RDPGFX_RESET_GRAPHICS_PDU with more than 16 monitors" countAt
      else
        let monitors ← readArray count monitorDefSize readMonitorDef
        let pad : Parse Unit := fun r => skip r.remaining r
        pad
        pure (.resetGraphics width height monitors) : Parse Pdu) r0

/-- 2.2.2.15. -/
def decodeMapSurfaceToOutput : Parse Pdu := do
  let surfaceId ← u16le
  skip 2
  let outputOriginX ← u32le
  let outputOriginY ← u32le
  expectEnd "RDPGFX_MAP_SURFACE_TO_OUTPUT_PDU"
  pure (.mapSurfaceToOutput surfaceId outputOriginX outputOriginY)

/-- 2.2.2.16, to the server. -/
def decodeCacheImportOffer : Parse Pdu := do
  let start ← at_
  let count ← u16le
  if count > maxCacheImportEntries then Parse.fail .invalidValue "cacheEntriesCount not below 5462" start
  else
    let entries ← readArray count cacheEntrySize readCacheEntry
    expectEnd "RDPGFX_CACHE_IMPORT_OFFER_PDU"
    pure (.cacheImportOffer entries)

/-- 2.2.2.17: the slot of each of the first entries offered. -/
def decodeCacheImportReply : Parse Pdu := do
  let start ← at_
  let count ← u16le
  if count > maxCacheImportEntries then Parse.fail .invalidValue "importedEntriesCount not below 5462" start
  else
    let cacheSlots ← readArray count cacheSlotSize readCacheSlot
    expectEnd "RDPGFX_CACHE_IMPORT_REPLY_PDU"
    pure (.cacheImportReply cacheSlots)

/-- 2.2.2.18, to the server: at least one set, not too many, and no version twice. -/
def decodeCapsAdvertise : Parse Pdu := do
  let start ← at_
  let count ← u16le
  if count = 0 then
    Parse.fail .invalidValue "RDPGFX_CAPS_ADVERTISE_PDU without capability sets" start
  else if count > maxCapsSets then Parse.fail .limitExceeded "capsSetCount" start
  else
    let capsSets ← readArray count capsSetHeaderSize readCapabilitySet
    if ¬ (capsSets.map CapabilitySet.version).Nodup then
      Parse.fail .invalidValue "capability set version advertised twice" start
    else
      expectEnd "RDPGFX_CAPS_ADVERTISE_PDU"
      pure (.capsAdvertise capsSets)

/-- 2.2.2.19. -/
def decodeCapsConfirm : Parse Pdu := do
  let capsSet ← readCapabilitySet
  expectEnd "RDPGFX_CAPS_CONFIRM_PDU"
  pure (.capsConfirm capsSet)

/-- 2.2.2.20. -/
def decodeMapSurfaceToWindow : Parse Pdu := do
  let surfaceId ← u16le
  let windowId ← u64le
  let mappedWidth ← u32le
  let mappedHeight ← u32le
  expectEnd "RDPGFX_MAP_SURFACE_TO_WINDOW_PDU"
  pure (.mapSurfaceToWindow surfaceId windowId mappedWidth mappedHeight)

/-- 2.2.2.21, to the server. -/
def decodeQoeFrameAcknowledge : Parse Pdu := do
  let frameId ← u32le
  let timestamp ← u32le
  let timeDiffSe ← u16le
  let timeDiffEdr ← u16le
  expectEnd "RDPGFX_QOE_FRAME_ACKNOWLEDGE_PDU"
  pure (.qoeFrameAcknowledge frameId timestamp timeDiffSe timeDiffEdr)

/-- 2.2.2.22. -/
def decodeMapSurfaceToScaledOutput : Parse Pdu := do
  let surfaceId ← u16le
  skip 2
  let outputOriginX ← u32le
  let outputOriginY ← u32le
  let targetWidth ← u32le
  let targetHeight ← u32le
  expectEnd "RDPGFX_MAP_SURFACE_TO_SCALED_OUTPUT_PDU"
  pure (.mapSurfaceToScaledOutput surfaceId outputOriginX outputOriginY targetWidth targetHeight)

/-- 2.2.2.23. -/
def decodeMapSurfaceToScaledWindow : Parse Pdu := do
  let surfaceId ← u16le
  let windowId ← u64le
  let mappedWidth ← u32le
  let mappedHeight ← u32le
  let targetWidth ← u32le
  let targetHeight ← u32le
  expectEnd "RDPGFX_MAP_SURFACE_TO_SCALED_WINDOW_PDU"
  pure (.mapSurfaceToScaledWindow surfaceId windowId mappedWidth mappedHeight targetWidth targetHeight)

/-- The body of a message with the given cmdId. -/
def decodeBody (command : ℕ) : Parse Pdu :=
  if command = Cmd.wireToSurface1 then decodeWireToSurface1
  else if command = Cmd.wireToSurface2 then decodeWireToSurface2
  else if command = Cmd.deleteEncodingContext then decodeDeleteEncodingContext
  else if command = Cmd.solidFill then decodeSolidFill
  else if command = Cmd.surfaceToSurface then decodeSurfaceToSurface
  else if command = Cmd.surfaceToCache then decodeSurfaceToCache
  else if command = Cmd.cacheToSurface then decodeCacheToSurface
  else if command = Cmd.evictCacheEntry then decodeEvictCacheEntry
  else if command = Cmd.createSurface then decodeCreateSurface
  else if command = Cmd.deleteSurface then decodeDeleteSurface
  else if command = Cmd.startFrame then decodeStartFrame
  else if command = Cmd.endFrame then decodeEndFrame
  else if command = Cmd.frameAcknowledge then decodeFrameAcknowledge
  else if command = Cmd.resetGraphics then decodeResetGraphics
  else if command = Cmd.mapSurfaceToOutput then decodeMapSurfaceToOutput
  else if command = Cmd.cacheImportOffer then decodeCacheImportOffer
  else if command = Cmd.cacheImportReply then decodeCacheImportReply
  else if command = Cmd.capsAdvertise then decodeCapsAdvertise
  else if command = Cmd.capsConfirm then decodeCapsConfirm
  else if command = Cmd.mapSurfaceToWindow then decodeMapSurfaceToWindow
  else if command = Cmd.qoeFrameAcknowledge then decodeQoeFrameAcknowledge
  else if command = Cmd.mapSurfaceToScaledOutput then decodeMapSurfaceToScaledOutput
  else if command = Cmd.mapSurfaceToScaledWindow then decodeMapSurfaceToScaledWindow
  else Parse.fail .unsupported "unknown RDPGFX cmdId" 0

/-- Decodes exactly one PDU, header included. -/
def decodePdu (data : List UInt8) : Result Pdu :=
  ((do
    let command ← u16le
    skip 2
    let start ← at_
    let length ← u32le
    if length ≠ data.length then Parse.fail .invalidLength "pduLength does not match the PDU size" start
    else decodeBody command : Parse Pdu) ⟨data, 0⟩).map Prod.fst

/-- The size of the PDU at the start of the stream, or `none` while the
stream holds less than that. -/
def framePdu (stream : List UInt8) (maxSize : ℕ) : Result (Option ℕ) :=
  if stream.length < headerSize then .ok none
  else ((do
    skip 4
    let start ← at_
    let length ← u32le
    if length < headerSize then
      Parse.fail .invalidLength "pduLength below the RDPGFX_HEADER size" start
    else if length > maxSize then Parse.fail .limitExceeded "RDPGFX PDU above the size limit" start
    else if length > stream.length then pure none
    else pure (some length) : Parse (Option ℕ)) ⟨stream, 0⟩).map Prod.fst

/-! ### Encoding -/

/-- A count of 16 bits. -/
def checkedCount (count : ℕ) : Option ℕ := if count ≤ 65535 then some count else none
/-- A length of 32 bits. -/
def checkedLength (length : ℕ) : Option ℕ := if length ≤ 4294967295 then some length else none

/-- The four bounds. -/
def writeRect16 (rect : Rect16) : List UInt8 :=
  Writer.u16le rect.left ++ Writer.u16le rect.top ++ Writer.u16le rect.right ++ Writer.u16le rect.bottom

/-- x and y. -/
def writePoint16 (point : Point16) : List UInt8 :=
  Writer.u16le (toUnsigned 16 point.x) ++ Writer.u16le (toUnsigned 16 point.y)

/-- B, G, R, XA. -/
def writeColor32 (color : Color32) : List UInt8 :=
  Writer.u8 color.b ++ Writer.u8 color.g ++ Writer.u8 color.r ++ Writer.u8 color.xa

/-- A length of 32 bits in front of the data. -/
def writeBitmapData (data : List UInt8) : Option (List UInt8) := do
  let length ← checkedLength data.length
  pure (Writer.u32le length ++ data)

/-- The inverse of `readMonitorDef`. -/
def writeMonitorDef (monitor : MonitorDef) : List UInt8 :=
  Writer.u32le (toUnsigned 32 monitor.left) ++ Writer.u32le (toUnsigned 32 monitor.top) ++
    Writer.u32le (toUnsigned 32 monitor.right) ++ Writer.u32le (toUnsigned 32 monitor.bottom) ++
    Writer.u32le monitor.flags

/-- The capsData of a defined version follow from it. -/
def writeCapabilitySet (set : CapabilitySet) : Option (List UInt8) :=
  match capsDataLength set.version with
  | some length =>
    some (Writer.u32le set.version ++ Writer.u32le length ++
      if set.version = CapVersion.v10_1 then Writer.zeros capsDataLengthV10_1 else Writer.u32le set.flags)
  | none => do
    let length ← checkedLength set.unknownData.length
    pure (Writer.u32le set.version ++ Writer.u32le length ++ set.unknownData)

/-- The key and the length. -/
def writeCacheEntry (entry : CacheEntryMetadata) : List UInt8 :=
  Writer.u64le entry.cacheKey ++ Writer.u32le entry.bitmapLength

/-- A message behind its header. -/
def encodeBody : Pdu → Option (List UInt8)
  | .wireToSurface1 surfaceId codecId pixelFormat destRect bitmapData => do
    let data ← writeBitmapData bitmapData
    pure (Writer.u16le surfaceId ++ Writer.u16le codecId ++ Writer.u8 pixelFormat ++ writeRect16 destRect ++ data)
  | .wireToSurface2 surfaceId codecId codecContextId pixelFormat bitmapData => do
    let data ← writeBitmapData bitmapData
    pure (Writer.u16le surfaceId ++ Writer.u16le codecId ++ Writer.u32le codecContextId ++ Writer.u8 pixelFormat ++
      data)
  | .deleteEncodingContext surfaceId codecContextId => pure (Writer.u16le surfaceId ++ Writer.u32le codecContextId)
  | .solidFill surfaceId fillPixel fillRects => do
    let count ← checkedCount fillRects.length
    pure (Writer.u16le surfaceId ++ writeColor32 fillPixel ++ Writer.u16le count ++ fillRects.flatMap writeRect16)
  | .surfaceToSurface surfaceIdSrc surfaceIdDest rectSrc destPts => do
    let count ← checkedCount destPts.length
    pure (Writer.u16le surfaceIdSrc ++ Writer.u16le surfaceIdDest ++ writeRect16 rectSrc ++ Writer.u16le count ++
      destPts.flatMap writePoint16)
  | .surfaceToCache surfaceId cacheKey cacheSlot rectSrc =>
    pure (Writer.u16le surfaceId ++ Writer.u64le cacheKey ++ Writer.u16le cacheSlot ++ writeRect16 rectSrc)
  | .cacheToSurface cacheSlot surfaceId destPts => do
    let count ← checkedCount destPts.length
    pure (Writer.u16le cacheSlot ++ Writer.u16le surfaceId ++ Writer.u16le count ++ destPts.flatMap writePoint16)
  | .evictCacheEntry cacheSlot => pure (Writer.u16le cacheSlot)
  | .createSurface surfaceId width height pixelFormat =>
    pure (Writer.u16le surfaceId ++ Writer.u16le width ++ Writer.u16le height ++ Writer.u8 pixelFormat)
  | .deleteSurface surfaceId => pure (Writer.u16le surfaceId)
  | .startFrame timestamp frameId => pure (Writer.u32le timestamp ++ Writer.u32le frameId)
  | .endFrame frameId => pure (Writer.u32le frameId)
  | .frameAcknowledge queueDepth frameId totalFramesDecoded =>
    pure (Writer.u32le queueDepth ++ Writer.u32le frameId ++ Writer.u32le totalFramesDecoded)
  | .resetGraphics width height monitors =>
    if monitors.length ≤ maxMonitors then
      pure (Writer.u32le width ++ Writer.u32le height ++ Writer.u32le monitors.length ++
        monitors.flatMap writeMonitorDef ++
        Writer.zeros (resetGraphicsPduSize - headerSize - resetGraphicsFixedSize - monitors.length * monitorDefSize))
    else none
  | .mapSurfaceToOutput surfaceId outputOriginX outputOriginY =>
    pure (Writer.u16le surfaceId ++ Writer.u16le 0 ++ Writer.u32le outputOriginX ++ Writer.u32le outputOriginY)
  | .cacheImportOffer entries =>
    if entries.length ≤ maxCacheImportEntries then do
      let count ← checkedCount entries.length
      pure (Writer.u16le count ++ entries.flatMap writeCacheEntry)
    else none
  | .cacheImportReply cacheSlots =>
    if cacheSlots.length ≤ maxCacheImportEntries then do
      let count ← checkedCount cacheSlots.length
      pure (Writer.u16le count ++ cacheSlots.flatMap Writer.u16le)
    else none
  | .capsAdvertise capsSets => do
    let count ← checkedCount capsSets.length
    let sets ← capsSets.mapM writeCapabilitySet
    pure (Writer.u16le count ++ sets.flatten)
  | .capsConfirm capsSet => writeCapabilitySet capsSet
  | .mapSurfaceToWindow surfaceId windowId mappedWidth mappedHeight =>
    pure (Writer.u16le surfaceId ++ Writer.u64le windowId ++ Writer.u32le mappedWidth ++ Writer.u32le mappedHeight)
  | .qoeFrameAcknowledge frameId timestamp timeDiffSe timeDiffEdr =>
    pure (Writer.u32le frameId ++ Writer.u32le timestamp ++ Writer.u16le timeDiffSe ++ Writer.u16le timeDiffEdr)
  | .mapSurfaceToScaledOutput surfaceId outputOriginX outputOriginY targetWidth targetHeight =>
    pure (Writer.u16le surfaceId ++ Writer.u16le 0 ++ Writer.u32le outputOriginX ++ Writer.u32le outputOriginY ++
      Writer.u32le targetWidth ++ Writer.u32le targetHeight)
  | .mapSurfaceToScaledWindow surfaceId windowId mappedWidth mappedHeight targetWidth targetHeight =>
    pure (Writer.u16le surfaceId ++ Writer.u64le windowId ++ Writer.u32le mappedWidth ++ Writer.u32le mappedHeight ++
      Writer.u32le targetWidth ++ Writer.u32le targetHeight)

/-- One PDU with its header: flags 0 and the exact pduLength. -/
def encode (pdu : Pdu) : Option (List UInt8) := do
  let body ← encodeBody pdu
  let length ← checkedLength (headerSize + body.length)
  pure (Writer.u16le (cmdId pdu) ++ Writer.u16le 0 ++ Writer.u32le length ++ body)

end Rdpgfx
end Channels
end Farland
