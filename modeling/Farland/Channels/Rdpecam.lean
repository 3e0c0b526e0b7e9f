/-
# Camera PDUs

Video capture redirection (`channels/rdpecam.cpp`): the client's PDUs and
their strict decoder, and the sizes of uncompressed frames. Of the server's
PDUs those are here that the camera server sends; their encoder is left out.
-/
import Farland.Base.Text
import Farland.Base.ReadBack

namespace Farland
namespace Channels
namespace Rdpecam

open Reader

/-- Without properties. -/
def version1 : ℕ := 1
/-- With properties. -/
def version2 : ℕ := 2

def maxStreams : ℕ := 255
def maxMediaTypes : ℕ := 255
def maxProperties : ℕ := 255
def maxDeviceName : ℕ := 512
def maxChannelName : ℕ := 256
/-- A 4K RGB32 frame with room to spare. -/
def maxSampleSize : ℕ := 64 * 1024 * 1024

def streamCategoryCapture : ℕ := 0x01
/-- `media_flag::decoding_required`. -/
def decodingRequired : ℕ := 0x01

def errorCodeName : ℕ → String
  | 0 => "none"
  | 1 => "an unexpected error"
  | 2 => "an invalid message"
  | 3 => "not initialized"
  | 4 => "an invalid request"
  | 5 => "an invalid stream number"
  | 6 => "an invalid media type"
  | 7 => "out of memory"
  | 8 => "the item was not found"
  | 9 => "the property set was not found"
  | 10 => "the operation is not supported"
  | _ => "an unknown error"

/-! ### Media types -/

inductive MediaFormat where
  | invalid
  | h264
  | mjpg
  | yuy2
  | nv12
  | i420
  | rgb24
  | rgb32
  deriving DecidableEq

def MediaFormat.ofNat? : ℕ → Option MediaFormat
  | 0 => some .invalid
  | 1 => some .h264
  | 2 => some .mjpg
  | 3 => some .yuy2
  | 4 => some .nv12
  | 5 => some .i420
  | 6 => some .rgb24
  | 7 => some .rgb32
  | _ => none

def formatName : MediaFormat → String
  | .h264 => "H264"
  | .mjpg => "MJPG"
  | .yuy2 => "YUY2"
  | .nv12 => "NV12"
  | .i420 => "I420"
  | .rgb24 => "RGB24"
  | .rgb32 => "RGB32"
  | .invalid => "invalid"

/-- Samples in these formats have to be decoded before they are pixels. -/
def needsDecoding (format : MediaFormat) : Bool := format = .h264 || format = .mjpg

/-- Bytes of one frame, 64 bits wide; 0 for a compressed format. -/
def frameSize (format : MediaFormat) (width height : ℕ) : ℕ :=
  let pixels := width * height
  match format with
  | .yuy2 => pixels * 2 % 2 ^ 64
  -- odd sizes are rounded up in the quarter-size planes
  | .nv12 | .i420 => (pixels + 2 * ((width + 1) / 2 * ((height + 1) / 2))) % 2 ^ 64
  | .rgb24 => pixels * 3 % 2 ^ 64
  | .rgb32 => pixels * 4 % 2 ^ 64
  | .h264 | .mjpg | .invalid => 0

/-- CAM_STREAM_DESCRIPTION. -/
structure StreamDescription where
  frameSourceTypes : ℕ := 0x0001
  category : ℕ := streamCategoryCapture
  selected : Bool := false
  canBeShared : Bool := false
  deriving DecidableEq

/-- CAM_MEDIA_TYPE_DESCRIPTION. -/
structure MediaType where
  format : MediaFormat := .invalid
  width : ℕ := 0
  height : ℕ := 0
  frameRateNumerator : ℕ := 0
  frameRateDenominator : ℕ := 1
  pixelAspectNumerator : ℕ := 1
  pixelAspectDenominator : ℕ := 1
  flags : ℕ := 0
  deriving DecidableEq

namespace MediaType

/-- Frames per second, rounded down; 0 when the rate is malformed. -/
def fps (t : MediaType) : ℕ := if t.frameRateDenominator = 0 then 0 else t.frameRateNumerator / t.frameRateDenominator

def frameSize (t : MediaType) : ℕ := Rdpecam.frameSize t.format t.width t.height

end MediaType

def mediaTypeSize : ℕ := 26
def streamDescriptionSize : ℕ := 5
def propertyDescriptionSize : ℕ := 22

/-- CAM_PROPERTY_DESCRIPTION. -/
structure PropertyDescription where
  propertySet : ℕ := 0x01
  propertyId : ℕ := 0
  capabilities : ℕ := 0
  minValue : ℤ := 0
  maxValue : ℤ := 0
  step : ℤ := 0
  defaultValue : ℤ := 0
  deriving DecidableEq

/-- CAM_PROPERTY_VALUE. -/
structure PropertyValue where
  mode : ℕ := 0x01
  value : ℤ := 0
  deriving DecidableEq

/-! ### PDUs -/

/-- What a client sends, on either channel. -/
inductive ClientPdu where
  | successResponse
  | errorResponse (code : ℕ)
  /-- The version travels in the shared header. -/
  | selectVersionRequest (version : ℕ)
  | deviceAdded (deviceName channelName : Text)
  | deviceRemoved (channelName : Text)
  | streamListResponse (streams : List StreamDescription)
  | mediaTypeListResponse (mediaTypes : List MediaType)
  | currentMediaTypeResponse (mediaType : MediaType)
  | sampleResponse (streamIndex : ℕ) (sample : List UInt8)
  | sampleErrorResponse (streamIndex code : ℕ)
  | propertyListResponse (properties : List PropertyDescription)
  | propertyValueResponse (value : PropertyValue)
  deriving DecidableEq

/-- What the server sends. -/
inductive ServerPdu where
  | selectVersionResponse (version : ℕ)
  | activateDeviceRequest
  | deactivateDeviceRequest
  | streamListRequest
  | mediaTypeListRequest (streamIndex : ℕ)
  | startStreamsRequest (streamIndex : ℕ) (mediaType : MediaType)
  | stopStreamsRequest
  | sampleRequest (streamIndex : ℕ)
  deriving DecidableEq

/-! ### Decoding -/

def readMediaType : Parse MediaType := do
  let format ← u8
  let offset ← at_
  match MediaFormat.ofNat? format with
  | none => Parse.fail .unsupported "unknown camera media format" offset
  | some format =>
    let width ← u32le
    let height ← u32le
    let frameRateNumerator ← u32le
    let frameRateDenominator ← u32le
    let pixelAspectNumerator ← u32le
    let pixelAspectDenominator ← u32le
    let flags ← u8
    let offset ← at_
    -- a zero denominator would divide by zero, a zero numerator means no frames
    if frameRateNumerator = 0 ∨ frameRateDenominator = 0 ∨ pixelAspectNumerator = 0 ∨ pixelAspectDenominator = 0 then
      Parse.fail .invalidValue "camera media type with a zero rate or aspect ratio" offset
    else
      pure { format, width, height, frameRateNumerator, frameRateDenominator, pixelAspectNumerator,
             pixelAspectDenominator, flags }

def readPropertyValue : Parse PropertyValue := do
  let mode ← u8
  let value ← u32le
  pure ⟨mode, toSigned 32 value⟩

/-- Everything that is unread, without consuming it. -/
def peek : Parse (List UInt8) := fun r => .ok (r.rest, r)

/-- Where the first zero unit stands, in bytes. -/
def zeroUnit : ℕ → List UInt8 → Option ℕ
  | i, low :: high :: rest => if low = 0 ∧ high = 0 then some i else zeroUnit (i + 2) rest
  | _, _ => none

/-- A terminated UTF-16LE string of at most `limit` bytes. -/
def readUtf16String (limit : ℕ) : Parse Text := do
  let rest ← peek
  let offset ← at_
  match zeroUnit 0 rest with
  | none => Parse.fail .truncated "camera device name is not terminated" offset
  | some i =>
    if limit < i then Parse.fail .limitExceeded "camera device name too long" offset
    else do
      let text ← bytes (i + 2)
      pure (utf16leToUtf8 (text.take i))

/-- A terminated byte string of at most `limit` bytes. -/
def readAsciiString (limit : ℕ) : Parse Text := do
  let rest ← peek
  let offset ← at_
  match rest.findIdx? (· = 0) with
  | none => Parse.fail .truncated "camera channel name is not terminated" offset
  | some i =>
    if limit < i then Parse.fail .limitExceeded "camera channel name too long" offset
    else do
      let text ← bytes (i + 1)
      pure (text.take i)

def readStreamDescription : Parse StreamDescription := do
  let frameSourceTypes ← u16le
  let category ← u8
  let selected ← u8
  let shared ← u8
  pure ⟨frameSourceTypes, category, selected ≠ 0, shared ≠ 0⟩

def readPropertyDescription : Parse PropertyDescription := do
  let propertySet ← u8
  let propertyId ← u8
  let capabilities ← u32le
  let minValue ← u32le
  let maxValue ← u32le
  let step ← u32le
  let defaultValue ← u32le
  pure ⟨propertySet, propertyId, capabilities, toSigned 32 minValue, toSigned 32 maxValue, toSigned 32 step,
    toSigned 32 defaultValue⟩

/-- As many elements of `size` bytes as fill the PDU, at most `limit`. -/
def readList {α : Type} (readOne : Parse α) (size limit : ℕ) (notWhole tooMany : String) : Parse (List α) := do
  let remaining ← left
  let offset ← at_
  if remaining % size ≠ 0 then Parse.fail .invalidLength notWhole offset
  else if limit < remaining / size then Parse.fail .limitExceeded tooMany offset
  else readMany readOne (remaining / size)

/-- A body that fills the rest of the PDU. -/
def whole {α : Type} (body : Parse α) (what : String) : Parse α := do
  let value ← body
  expectEnd what
  pure value

def readDeviceAdded : Parse ClientPdu := do
  let deviceName ← readUtf16String maxDeviceName
  let channelName ← readAsciiString maxChannelName
  let offset ← at_
  if channelName = [] then Parse.fail .invalidValue "camera with an empty channel name" offset
  else pure (.deviceAdded deviceName channelName)

def readSampleResponse : Parse ClientPdu := do
  let streamIndex ← u8
  let rest ← peek
  let offset ← at_
  if maxSampleSize < rest.length then Parse.fail .limitExceeded "camera sample too large" offset
  else pure (.sampleResponse streamIndex rest)

def readSampleErrorResponse : Parse ClientPdu := do
  let streamIndex ← u8
  let code ← u32le
  pure (.sampleErrorResponse streamIndex code)

/-- The body of a PDU, by its message id. -/
def readBody (version : ℕ) : ℕ → Parse ClientPdu
  | 0x01 => whole (pure .successResponse) "Success Response"
  | 0x02 => whole (ClientPdu.errorResponse <$> u32le) "Error Response"
  | 0x03 => whole (pure (.selectVersionRequest version)) "Select Version Request"
  | 0x05 => whole readDeviceAdded "Device Added Notification"
  | 0x06 => whole (ClientPdu.deviceRemoved <$> readAsciiString maxChannelName) "Device Removed Notification"
  | 0x0A =>
    ClientPdu.streamListResponse <$> readList readStreamDescription streamDescriptionSize maxStreams
      "Stream List Response is not a whole number of descriptions" "too many camera streams"
  | 0x0C =>
    ClientPdu.mediaTypeListResponse <$> readList readMediaType mediaTypeSize maxMediaTypes
      "Media Type List Response is not a whole number of descriptions" "too many camera media types"
  | 0x0E => whole (ClientPdu.currentMediaTypeResponse <$> readMediaType) "Current Media Type Response"
  | 0x12 => readSampleResponse
  | 0x13 => whole readSampleErrorResponse "Sample Error Response"
  | 0x15 =>
    ClientPdu.propertyListResponse <$> readList readPropertyDescription propertyDescriptionSize maxProperties
      "Property List Response is not a whole number of descriptions" "too many camera properties"
  | 0x17 => whole (ClientPdu.propertyValueResponse <$> readPropertyValue) "Property Value Response"
  | _ => Parse.fail .unsupported "unknown or unexpected camera client PDU" 1

/-- By the message id. -/
def clientPdu : Parse ClientPdu := do
  let version ← u8
  let id ← u8
  readBody version id

def decodeClientPdu (message : List UInt8) : Result ClientPdu := (clientPdu ⟨message, 0⟩).map (·.1)

end Rdpecam
end Channels
end Farland
