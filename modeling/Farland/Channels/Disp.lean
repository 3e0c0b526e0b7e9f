/-
# Display control PDUs

The display control channel (`channels/disp.cpp`): the capabilities the server
sends, the monitor layouts a client asks for, and the strict decoder of both.
The decoder takes a monitor's values as sent; which of them make a layout is
decided in `Server/DisplayLayout`.
-/
import Farland.Base.ReadBack
import Farland.Proto.Gcc

namespace Farland
namespace Channels
namespace Disp

open Writer

open Proto.Gcc (MonitorAttributes readMonitorAttributes)

def channelName : Text := text "Microsoft::Windows::RDS::DisplayControl"

/-- `pdu_type::monitor_layout`. -/
def pduTypeMonitorLayout : ℕ := 0x00000002
/-- `pdu_type::caps`. -/
def pduTypeCaps : ℕ := 0x00000005

def headerSize : ℕ := 8
def monitorLayoutSize : ℕ := 40
def monitorPrimary : ℕ := 0x00000001
def maxMonitors : ℕ := 16

structure CapsPdu where
  maxNumMonitors : ℕ := 0
  maxMonitorAreaFactorA : ℕ := 0
  maxMonitorAreaFactorB : ℕ := 0
  deriving DecidableEq

/-- The last five fields are those of a monitor in CS_MONITOR_EX. -/
structure MonitorLayout where
  flags : ℕ := 0
  left : ℤ := 0
  top : ℤ := 0
  width : ℕ := 0
  height : ℕ := 0
  attributes : MonitorAttributes := ⟨0, 0, 0, 0, 0⟩
  deriving DecidableEq

def MonitorLayout.primary (m : MonitorLayout) : Bool := m.flags &&& monitorPrimary != 0

inductive Pdu where
  | caps (caps : CapsPdu)
  | monitorLayout (monitors : List MonitorLayout)
  deriving DecidableEq

/-! ### Encoding -/

def writeHeader (type length : ℕ) : List UInt8 := u32le type ++ u32le length

def encodeMonitor (m : MonitorLayout) : List UInt8 :=
  u32le m.flags ++ (u32le (toUnsigned 32 m.left) ++ (u32le (toUnsigned 32 m.top) ++
    (u32le m.width ++ (u32le m.height ++
      (u32le m.attributes.physicalWidth ++ (u32le m.attributes.physicalHeight ++
        (u32le m.attributes.orientation ++ (u32le m.attributes.desktopScaleFactor ++
          u32le m.attributes.deviceScaleFactor))))))))

/-- The encoder asserts that a layout has one to `maxMonitors` monitors. -/
def encode : Pdu → List UInt8
  | .caps caps =>
    writeHeader pduTypeCaps (headerSize + 12) ++ (u32le caps.maxNumMonitors ++
      (u32le caps.maxMonitorAreaFactorA ++ u32le caps.maxMonitorAreaFactorB))
  | .monitorLayout monitors =>
    writeHeader pduTypeMonitorLayout (headerSize + 8 + monitors.length * monitorLayoutSize) ++
      (u32le monitorLayoutSize ++ (u32le monitors.length ++ monitors.flatMap encodeMonitor))

/-! ### Decoding -/

def decodeMonitor : Parse MonitorLayout := do
  let flags ← Reader.u32le
  let left ← Reader.u32le
  let top ← Reader.u32le
  let width ← Reader.u32le
  let height ← Reader.u32le
  let attributes ← readMonitorAttributes
  pure { flags, left := toSigned 32 left, top := toSigned 32 top, width, height, attributes }

/-- The monitors of a layout, after the header. -/
def decodeLayout (monitorLimit : ℕ) : Parse (List MonitorLayout) := do
  let size ← Reader.u32le
  let sizeEnd ← Reader.at_
  if size ≠ monitorLayoutSize then Parse.fail .invalidValue "MonitorLayoutSize is not 40" (sizeEnd - 4)
  else
    let count ← Reader.u32le
    let countEnd ← Reader.at_
    let left ← Reader.left
    if count = 0 then Parse.fail .invalidValue "a monitor layout without monitors" (countEnd - 4)
    else if count > min monitorLimit maxMonitors then
      Parse.fail .limitExceeded "more monitors than the server offered" (countEnd - 4)
    else if left ≠ count * monitorLayoutSize then
      Parse.fail .invalidLength "NumMonitors does not match the PDU length" (countEnd - 4)
    else Reader.readMany decodeMonitor count

def decodeCaps : Parse CapsPdu := do
  let maxNumMonitors ← Reader.u32le
  let maxMonitorAreaFactorA ← Reader.u32le
  let maxMonitorAreaFactorB ← Reader.u32le
  Reader.expectEnd "DISPLAYCONTROL_CAPS_PDU"
  pure { maxNumMonitors, maxMonitorAreaFactorA, maxMonitorAreaFactorB }

/-- What follows the header of a PDU of this type. -/
def decodeBody (monitorLimit type : ℕ) : Parse Pdu :=
  if type = pduTypeCaps then do
    let caps ← decodeCaps
    pure (.caps caps)
  else if type = pduTypeMonitorLayout then do
    let monitors ← decodeLayout monitorLimit
    pure (.monitorLayout monitors)
  else Parse.fail .unsupported "unknown DISPLAYCONTROL PDU type" 0

def decodePdu (size monitorLimit : ℕ) : Parse Pdu := do
  let type ← Reader.u32le
  let length ← Reader.u32le
  if length ≠ size then
    Parse.fail .invalidLength "the DISPLAYCONTROL_HEADER Length is not the message size" 4
  else decodeBody monitorLimit type

/-- One message of the channel, which holds exactly one PDU. -/
def decode (message : List UInt8) (monitorLimit : ℕ := maxMonitors) : Result Pdu := do
  let (pdu, _) ← decodePdu message.length monitorLimit ⟨message, 0⟩
  pure pdu

/-! ### Reading back -/

/-- A signed field of 32 bits. -/
def Signed32 (v : ℤ) : Prop := -2 ^ 31 ≤ v ∧ v < 2 ^ 31

/-- The values fit the fields they travel in. -/
structure MonitorLayout.Fits (m : MonitorLayout) : Prop where
  flags : m.flags < 2 ^ 32
  left : Signed32 m.left
  top : Signed32 m.top
  width : m.width < 2 ^ 32
  height : m.height < 2 ^ 32
  physicalWidth : m.attributes.physicalWidth < 2 ^ 32
  physicalHeight : m.attributes.physicalHeight < 2 ^ 32
  orientation : m.attributes.orientation < 2 ^ 32
  desktopScaleFactor : m.attributes.desktopScaleFactor < 2 ^ 32
  deviceScaleFactor : m.attributes.deviceScaleFactor < 2 ^ 32

end Disp
end Channels
end Farland
