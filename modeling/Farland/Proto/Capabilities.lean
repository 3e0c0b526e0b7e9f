/-
# Capability sets and the Confirm Active PDU

What a client says of itself before the connection becomes active
(`proto/capabilities.cpp`, `decode_confirm_active` of `proto/share.cpp`). Sets
the code does not know are kept raw, of a known set that comes twice the first
counts, and a set may be longer than expected.

Also the share control and share data headers that the server's own PDUs get;
`none` is a failed assertion there.
-/
import Farland.Base.Text

namespace Farland
namespace Proto
namespace Caps

open Reader

/-! ### The sets -/

/-- TS_GENERAL_CAPABILITYSET. -/
structure General where
  osMajorType : ℕ := 0
  osMinorType : ℕ := 0
  protocolVersion : ℕ := 0x0200
  generalCompressionTypes : ℕ := 0
  extraFlags : ℕ := 0
  updateCapabilityFlag : ℕ := 0
  remoteUnshareFlag : ℕ := 0
  generalCompressionLevel : ℕ := 0
  refreshRectSupport : ℕ := 0
  suppressOutputSupport : ℕ := 0
  deriving DecidableEq

namespace GeneralExtraFlags

def fastpathOutputSupported : ℕ := 0x0001
def noBitmapCompressionHdr : ℕ := 0x0400

end GeneralExtraFlags

/-- TS_BITMAP_CAPABILITYSET. -/
structure Bitmap where
  preferredBitsPerPixel : ℕ := 32
  receive1BitPerPixel : ℕ := 1
  receive4BitsPerPixel : ℕ := 1
  receive8BitsPerPixel : ℕ := 1
  desktopWidth : ℕ := 0
  desktopHeight : ℕ := 0
  desktopResizeFlag : ℕ := 1
  bitmapCompressionFlag : ℕ := 1
  highColorFlags : ℕ := 0
  drawingFlags : ℕ := 0
  multipleRectangleSupport : ℕ := 1
  deriving DecidableEq

/-- TS_ORDER_CAPABILITYSET. -/
structure Order where
  terminalDescriptor : List UInt8
  desktopSaveXGranularity : ℕ
  desktopSaveYGranularity : ℕ
  maximumOrderLevel : ℕ
  numberFonts : ℕ
  orderFlags : ℕ
  orderSupport : List UInt8
  textFlags : ℕ
  orderSupportExFlags : ℕ
  desktopSaveSize : ℕ
  textAnsiCodePage : ℕ
  deriving DecidableEq

/-- TS_POINTER_CAPABILITYSET. -/
structure Pointer where
  colorPointerFlag : ℕ
  colorPointerCacheSize : ℕ
  pointerCacheSize : Option ℕ
  deriving DecidableEq

/-- TS_INPUT_CAPABILITYSET. -/
structure Input where
  inputFlags : ℕ
  keyboardLayout : ℕ
  keyboardType : ℕ
  keyboardSubtype : ℕ
  keyboardFunctionKeys : ℕ
  imeFileName : Text
  deriving DecidableEq

/-- TS_VIRTUALCHANNEL_CAPABILITYSET. -/
structure VirtualChannel where
  flags : ℕ
  chunkSize : Option ℕ
  deriving DecidableEq

/-- A set kept as it came. -/
structure RawCapabilitySet where
  type : ℕ
  body : List UInt8
  deriving DecidableEq

/-- The sets of one field are kept as that field. -/
structure CapabilitySets where
  general : Option General := none
  bitmap : Option Bitmap := none
  order : Option Order := none
  pointer : Option Pointer := none
  input : Option Input := none
  virtualChannel : Option VirtualChannel := none
  shareNodeId : Option ℕ := none
  fontSupportFlags : Option ℕ := none
  colorCacheSize : Option ℕ := none
  maxRequestSize : Option ℕ := none
  largePointerSupportFlags : Option ℕ := none
  surfaceCmdFlags : Option ℕ := none
  maxUnacknowledgedFrameCount : Option ℕ := none
  other : List RawCapabilitySet := []
  deriving DecidableEq

/-! ### Decoding a set -/

/-- A field that may be missing at the end. -/
def trailing (read : Parse ℕ) : Parse (Option ℕ) := do
  let atEnd ← atEnd
  if atEnd then pure none else some <$> read

def decodeGeneral : Parse General := do
  let osMajorType ← u16le
  let osMinorType ← u16le
  let protocolVersion ← u16le
  skip 2
  let generalCompressionTypes ← u16le
  let extraFlags ← u16le
  let updateCapabilityFlag ← u16le
  let remoteUnshareFlag ← u16le
  let generalCompressionLevel ← u16le
  -- missing from very old clients
  let refreshRectSupport ← trailing u8
  let suppressOutputSupport ← trailing u8
  pure {
    osMajorType, osMinorType, protocolVersion, generalCompressionTypes, extraFlags, updateCapabilityFlag,
    remoteUnshareFlag, generalCompressionLevel
    refreshRectSupport := refreshRectSupport.getD 0
    suppressOutputSupport := suppressOutputSupport.getD 0 }

def decodeBitmap : Parse Bitmap := do
  let preferredBitsPerPixel ← u16le
  let receive1BitPerPixel ← u16le
  let receive4BitsPerPixel ← u16le
  let receive8BitsPerPixel ← u16le
  let desktopWidth ← u16le
  let desktopHeight ← u16le
  skip 2
  let desktopResizeFlag ← u16le
  let bitmapCompressionFlag ← u16le
  let highColorFlags ← u8
  let drawingFlags ← u8
  let multipleRectangleSupport ← u16le
  pure {
    preferredBitsPerPixel, receive1BitPerPixel, receive4BitsPerPixel, receive8BitsPerPixel, desktopWidth,
    desktopHeight, desktopResizeFlag, bitmapCompressionFlag, highColorFlags, drawingFlags, multipleRectangleSupport }

def decodeOrder : Parse Order := do
  let terminalDescriptor ← bytes 16
  skip 4
  let desktopSaveXGranularity ← u16le
  let desktopSaveYGranularity ← u16le
  skip 2
  let maximumOrderLevel ← u16le
  let numberFonts ← u16le
  let orderFlags ← u16le
  let orderSupport ← bytes 32
  let textFlags ← u16le
  let orderSupportExFlags ← u16le
  skip 4
  let desktopSaveSize ← u32le
  skip 4
  let textAnsiCodePage ← u16le
  pure {
    terminalDescriptor, desktopSaveXGranularity, desktopSaveYGranularity, maximumOrderLevel, numberFonts, orderFlags,
    orderSupport, textFlags, orderSupportExFlags, desktopSaveSize, textAnsiCodePage }

def decodePointer : Parse Pointer := do
  let colorPointerFlag ← u16le
  let colorPointerCacheSize ← u16le
  let pointerCacheSize ← trailing u16le
  pure { colorPointerFlag, colorPointerCacheSize, pointerCacheSize }

def imeFileNameSize : ℕ := 64

def decodeInput : Parse Input := do
  let inputFlags ← u16le
  skip 2
  let keyboardLayout ← u32le
  let keyboardType ← u32le
  let keyboardSubtype ← u32le
  let keyboardFunctionKeys ← u32le
  let ime ← bytes imeFileNameSize
  pure {
    inputFlags, keyboardLayout, keyboardType, keyboardSubtype, keyboardFunctionKeys
    imeFileName := utf16leToUtf8 ime }

def decodeVirtualChannel : Parse VirtualChannel := do
  let flags ← u32le
  let chunkSize ← trailing u32le
  pure { flags, chunkSize }

/-- FONTSUPPORT_FONTLIST when the body is empty. -/
def decodeFont : Parse ℕ := do
  let flags ← trailing u16le
  pure (flags.getD 0x0001)

/-! ### Decoding the sets -/

/-- `keep_first` into the slot of a set: a set of the same type that came before stays. -/
def decodeInto (setType : ℕ) (sets : CapabilitySets) : Parse CapabilitySets :=
  if setType = 1 then do
    let value ← decodeGeneral
    pure { sets with general := sets.general.or (some value) }
  else if setType = 2 then do
    let value ← decodeBitmap
    pure { sets with bitmap := sets.bitmap.or (some value) }
  else if setType = 3 then do
    let value ← decodeOrder
    pure { sets with order := sets.order.or (some value) }
  else if setType = 8 then do
    let value ← decodePointer
    pure { sets with pointer := sets.pointer.or (some value) }
  else if setType = 13 then do
    let value ← decodeInput
    pure { sets with input := sets.input.or (some value) }
  else if setType = 20 then do
    let value ← decodeVirtualChannel
    pure { sets with virtualChannel := sets.virtualChannel.or (some value) }
  else if setType = 9 then do
    let value ← u16le
    pure { sets with shareNodeId := sets.shareNodeId.or (some value) }
  else if setType = 14 then do
    let value ← decodeFont
    pure { sets with fontSupportFlags := sets.fontSupportFlags.or (some value) }
  else if setType = 10 then do
    let value ← u16le
    pure { sets with colorCacheSize := sets.colorCacheSize.or (some value) }
  else if setType = 26 then do
    let value ← u32le
    pure { sets with maxRequestSize := sets.maxRequestSize.or (some value) }
  else if setType = 27 then do
    let value ← u16le
    pure { sets with largePointerSupportFlags := sets.largePointerSupportFlags.or (some value) }
  else if setType = 28 then do
    let value ← u32le
    pure { sets with surfaceCmdFlags := sets.surfaceCmdFlags.or (some value) }
  else if setType = 30 then do
    let value ← u32le
    pure { sets with maxUnacknowledgedFrameCount := sets.maxUnacknowledgedFrameCount.or (some value) }
  else do
    let left ← left
    let body ← bytes left
    pure { sets with other := sets.other ++ [⟨setType, body⟩] }

/-- Type and length of a set. -/
def headerSize : ℕ := 4

/-- A set by its type. -/
def decodeSet (sets : CapabilitySets) : Parse CapabilitySets := do
  let start ← at_
  let setType ← u16le
  let length ← u16le
  if length < headerSize then Parse.fail .invalidLength "capability set shorter than its header" start
  else do
    let body ← sub (length - headerSize)
    Parse.on body (decodeInto setType sets)

/-- As many sets as are counted. -/
def decodeCapabilitySets : ℕ → CapabilitySets → Parse CapabilitySets
  | 0, sets => pure sets
  | count + 1, sets => do
    let sets ← decodeSet sets
    decodeCapabilitySets count sets

end Caps

/-! ### Confirm Active -/

/-- What a client answers to a Demand Active. -/
structure ConfirmActive where
  shareId : ℕ
  originatorId : ℕ
  sourceDescriptor : Text
  capabilities : Caps.CapabilitySets
  deriving DecidableEq

def maxSourceDescriptor : ℕ := 64

/-- Up to the first NUL. -/
def readSourceDescriptor (length : ℕ) : Parse Text := do
  let start ← Reader.at_
  if maxSourceDescriptor < length then Parse.fail .limitExceeded "source descriptor longer than 64 bytes" start
  else do
    let bytes ← Reader.bytes length
    pure (bytes.takeWhile (· != 0))

/-- The count, and the sets. -/
def combinedCapabilities : Parse Caps.CapabilitySets := do
  let count ← Reader.u16le
  Reader.skip 2
  let sets ← Caps.decodeCapabilitySets count {}
  Reader.expectEnd "capability sets"
  pure sets

/-- The descriptor and the combined capability sets. -/
def readCapabilities : Parse (Text × Caps.CapabilitySets) := do
  let descriptorLength ← Reader.u16le
  let combinedOffset ← Reader.at_
  let combinedLength ← Reader.u16le
  let descriptor ← readSourceDescriptor descriptorLength
  if combinedLength < 4 then Parse.fail .invalidLength "lengthCombinedCapabilities below 4" combinedOffset
  else do
    let combined ← Reader.sub combinedLength
    let sets ← Parse.on combined combinedCapabilities
    pure (descriptor, sets)

/-- Some clients pad the PDU; nothing after the capability sets is used. -/
def decodeConfirmActive : Parse ConfirmActive := do
  let shareId ← Reader.u32le
  let originatorId ← Reader.u16le
  let (sourceDescriptor, capabilities) ← readCapabilities
  pure { shareId, originatorId, sourceDescriptor, capabilities }

/-! ### The server's data PDUs -/

def tsProtocolVersion : ℕ := 0x0010
def pduTypeData : ℕ := 7
def pduType2Update : ℕ := 2
def streamLow : ℕ := 1

/-- `begin_share_control` and `end_share_control` around a body. -/
def shareControl (type source : ℕ) (body : List UInt8) : Option (List UInt8) := do
  asserts (6 + body.length ≤ 0x7FFF)
  pure (Writer.u16le (6 + body.length) ++ Writer.u16le (type ||| tsProtocolVersion) ++ Writer.u16le source ++ body)

/-- A share data header and its payload. -/
def writeDataPdu (shareId source type2 : ℕ) (payload : List UInt8) : Option (List UInt8) := do
  asserts (payload.length + 4 ≤ 0xFFFF)
  shareControl pduTypeData source (Writer.u32le shareId ++ Writer.u8 0 ++ Writer.u8 streamLow ++
    Writer.u16le (payload.length + 4) ++ Writer.u8 type2 ++ Writer.u8 0 ++ Writer.u16le 0 ++ payload)

theorem shareControl_some (type source : ℕ) {body : List UInt8} (h : body.length + 6 ≤ 0x7FFF) :
    ∃ xs, shareControl type source body = some xs ∧ xs.length = body.length + 6 := by
  rw [shareControl, asserts, if_pos (by omega)]
  refine ⟨_, rfl, ?_⟩
  simp only [List.length_append, Writer.u16le_length]
  omega

theorem writeDataPdu_some (shareId source type2 : ℕ) {payload : List UInt8} (h : payload.length + 18 ≤ 0x7FFF) :
    ∃ xs, writeDataPdu shareId source type2 payload = some xs ∧ xs.length = payload.length + 18 := by
  have hbody : (Writer.u32le shareId ++ Writer.u8 0 ++ Writer.u8 streamLow ++ Writer.u16le (payload.length + 4) ++
      Writer.u8 type2 ++ Writer.u8 0 ++ Writer.u16le 0 ++ payload).length = payload.length + 12 := by
    simp only [List.length_append, Writer.u32le_length, Writer.u16le_length, Writer.u8_length]
    omega
  generalize hbytes : Writer.u32le shareId ++ Writer.u8 0 ++ Writer.u8 streamLow ++ Writer.u16le (payload.length + 4) ++
    Writer.u8 type2 ++ Writer.u8 0 ++ Writer.u16le 0 ++ payload = body at hbody
  obtain ⟨xs, hxs, hlength⟩ := shareControl_some pduTypeData source (by omega : body.length + 6 ≤ 0x7FFF)
  refine ⟨xs, ?_, by omega⟩
  rw [writeDataPdu, asserts, if_pos (by omega), hbytes]
  exact hxs

end Proto
end Farland
