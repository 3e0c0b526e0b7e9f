/-
# The client's monitors in the conference control user data

Of the client's data blocks in the T.124 Conference Create Request
(`proto/gcc.hpp`), what a layout is made from: the size and scale of its desktop
in CS_CORE, and its monitors with their attributes in CS_MONITOR and
CS_MONITOR_EX, each block at most once.
-/
import Farland.Base.Reader

namespace Farland
namespace Proto
namespace Gcc

/-- The optional fields of TS_UD_CS_CORE about the desktop. -/
structure ClientCoreData where
  desktopPhysicalWidth : Option ℕ := none
  desktopPhysicalHeight : Option ℕ := none
  desktopOrientation : Option ℕ := none
  desktopScaleFactor : Option ℕ := none
  deviceScaleFactor : Option ℕ := none
  deriving DecidableEq

/-- TS_MONITOR_DEF: inclusive coordinates. -/
structure MonitorDef where
  left : ℤ
  top : ℤ
  right : ℤ
  bottom : ℤ
  flags : ℕ
  deriving DecidableEq

/-- TS_UD_CS_MONITOR. -/
structure ClientMonitorData where
  monitors : List MonitorDef
  deriving DecidableEq

/-- TS_MONITOR_ATTRIBUTES: millimetres, degrees and percent. -/
structure MonitorAttributes where
  physicalWidth : ℕ
  physicalHeight : ℕ
  orientation : ℕ
  desktopScaleFactor : ℕ
  deviceScaleFactor : ℕ
  deriving DecidableEq

/-- TS_UD_CS_MONITOR_EX. -/
structure ClientMonitorExtendedData where
  monitors : List MonitorAttributes
  deriving DecidableEq

/-- The data blocks, those that are there. -/
structure ClientData where
  core : ClientCoreData := {}
  monitor : Option ClientMonitorData := none
  monitorEx : Option ClientMonitorExtendedData := none
  deriving DecidableEq

/-- TS_MONITOR_ATTRIBUTES as bytes. -/
def readMonitorAttributes : Parse MonitorAttributes := do
  let physicalWidth ← Reader.u32le
  let physicalHeight ← Reader.u32le
  let orientation ← Reader.u32le
  let desktopScaleFactor ← Reader.u32le
  let deviceScaleFactor ← Reader.u32le
  pure { physicalWidth, physicalHeight, orientation, desktopScaleFactor, deviceScaleFactor }

end Gcc
end Proto
end Farland
