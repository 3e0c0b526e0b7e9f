/-
# The RDPGFX server

`GfxServer` of `channels/rdpgfx_server.cpp`, the server side of the Graphics
Pipeline as a state machine: capability negotiation, surfaces, frames and
their acknowledgements, and the bitmap cache map. Commands check their
preconditions with assertions; a failed assertion is `none`. After a failure
commands do nothing.

`Command` collects the calls of the class and `step` runs one, so that a run
of the server is a list of commands.
-/
import Farland.Channels.Rdpgfx.Pdu

namespace Farland
namespace Channels
namespace Rdpgfx

open CapVersion

/-- Highest first; 10.6's errata value only if the client lacks the real one. -/
def preferredVersions : List ℕ :=
  [v10_7, v10_6, v10_6_err, v10_5, v10_4, v10_3,
    v10_2, v10_1, v10, v8_1, v8]

def bytesPerPixel : ℕ := 4

structure GfxServerConfig where
  maxVersion : ℕ := v10_7
  avc420 : Bool := true
  avc444 : Bool := true
  avc444v2 : Bool := true
  deriving DecidableEq

/-- What client and server agreed on. -/
structure Negotiated where
  version : ℕ
  clientFlags : ℕ
  flags : ℕ
  thinClient : Bool
  smallCache : Bool
  avc420 : Bool
  avc444 : Bool
  avc444v2 : Bool
  avcThinClient : Bool
  scaledOutput : Bool
  qoe : Bool
  maxCacheSlots : ℕ
  maxCacheBytes : ℕ
  deriving DecidableEq

def derive (version clientFlags : ℕ) (config : GfxServerConfig) : Negotiated :=
  let flags := clientFlags &&& definedCapsFlags version
  let v10 := decide (version ≥ v10)
  let thinClient := !v10 && flags &&& CapsFlag.thinClient != 0
  let smallCache := flags &&& (CapsFlag.thinClient ||| CapsFlag.smallCache) != 0 || version == v10_3
  let clientAvc := flags &&& CapsFlag.avcDisabled == 0
  let avc420 :=
    if version = v8_1 then config.avc420 && flags &&& CapsFlag.avc420Enabled != 0
    else v10 && clientAvc && config.avc420 && version ≥ v10_4
  -- only 8.1 has the flag, which is not confirmed when the server will not send AVC420
  let confirmed :=
    if version = v8_1 ∧ avc420 = false then flags - (flags &&& CapsFlag.avc420Enabled) else flags
  { version := version
    clientFlags := clientFlags
    flags := confirmed
    thinClient := thinClient
    smallCache := smallCache
    avc420 := avc420
    avc444 := v10 && clientAvc && config.avc444
    avc444v2 := v10 && clientAvc && config.avc444v2
    avcThinClient := v10 && flags &&& CapsFlag.avcThinClient != 0
    scaledOutput := version == v10_7 && flags &&& CapsFlag.scaledmapDisable == 0
    qoe := v10 && version != v10_1
    maxCacheSlots := if smallCache then maxCacheSlotsSmall else Rdpgfx.maxCacheSlots
    maxCacheBytes := if smallCache then cacheSizeSmall else cacheSize }

/-- Whether a codec may be used in WireToSurface1 (Progressive: in
WireToSurface2). -/
def Negotiated.allows (n : Negotiated) (codecId : ℕ) : Bool :=
  if codecId ∈ [CodecId.uncompressed, CodecId.cavideo, CodecId.clearcodec, CodecId.planar, CodecId.alpha] then true
  else if codecId = CodecId.progressive then !n.thinClient
  else if codecId = CodecId.avc420 then n.avc420
  else if codecId = CodecId.avc444 then n.avc444
  else if codecId = CodecId.avc444v2 then n.avc444v2
  else false

/-- The first of `versions` that both sides support. -/
def negotiateFrom (capsSets : List CapabilitySet) (config : GfxServerConfig) : List ℕ → Option Negotiated
  | [] => none
  | version :: versions =>
    if version > config.maxVersion then negotiateFrom capsSets config versions
    else
      match capsSets.find? (·.version = version) with
      | some set => some (derive version set.flags config)
      | none => negotiateFrom capsSets config versions

def negotiate (capsSets : List CapabilitySet) (config : GfxServerConfig) : Option Negotiated :=
  negotiateFrom capsSets config preferredVersions

inductive GfxState where
  | waitCapsAdvertise
  | ready
  | failed
  deriving DecidableEq

inductive GfxEvent where
  | ready (negotiated : Negotiated) (reset : Bool)
  | frameAcked (frameId queueDepth totalFramesDecoded : ℕ) (known : Bool)
  | qoeFrameAcked (frameId timestamp timeDiffSe timeDiffEdr : ℕ)
  | cacheImportOffered (offered imported : ℕ)
  | failed (reason : String)
  deriving DecidableEq

structure Surface where
  width : ℕ
  height : ℕ
  format : ℕ
  deriving DecidableEq

structure CacheEntry where
  key : ℕ := 0
  bytes : ℕ := 0
  width : ℕ := 0
  height : ℕ := 0
  used : Bool := false
  deriving DecidableEq

/-- The server's state. `surfaces` is the ordered map of the source, by
increasing id; `cacheKeys` maps keys to one-based slots. -/
structure GfxServer where
  config : GfxServerConfig
  state : GfxState := .waitCapsAdvertise
  failure : String := ""
  negotiated : Option Negotiated := none
  input : List UInt8 := []
  output : List (List UInt8) := []
  events : List GfxEvent := []
  graphicsReset : Bool := false
  surfaces : List (ℕ × Surface) := []
  codecContexts : List (ℕ × ℕ) := []
  inFrame : Bool := false
  currentFrame : ℕ := 0
  nextFrameId : ℕ := 1
  unacked : List ℕ := []
  acksSuspended : Bool := false
  queueDepth : ℕ := 0
  totalFramesDecoded : ℕ := 0
  cache : List CacheEntry := []
  cacheKeys : List (ℕ × ℕ) := []
  cacheBytes : ℕ := 0
  cacheHint : ℕ := 0
  deriving DecidableEq

/-- `FARLAND_ASSERT`. -/
def assert (b : Bool) : Option Unit := if b then some () else none

namespace GfxServer

variable (s : GfxServer)

def send (pdu : Pdu) : Option GfxServer := do
  let bytes ← encode pdu
  pure { s with output := s.output ++ [bytes] }

def fail (reason : String) : GfxServer :=
  { s with state := .failed, failure := reason, events := s.events ++ [.failed reason] }

/-! ### Client messages -/

def resetProtocol : GfxServer :=
  { s with graphicsReset := false, surfaces := [], codecContexts := [], inFrame := false, unacked := [],
           acksSuspended := false, queueDepth := 0, totalFramesDecoded := 0, cache := [], cacheKeys := [],
           cacheBytes := 0, cacheHint := 0 }

def onCapsAdvertise (capsSets : List CapabilitySet) : Option GfxServer :=
  let reset := s.state == .ready
  let early := match s.negotiated with
    | some n => n.version < v10_3
    | none => true
  if reset && early then some (s.fail "Caps Advertise repeated after confirming a version before 10.3")
  else
    let s := if reset then s.resetProtocol else s
    match negotiate capsSets s.config with
    | none => some (s.fail "the client offered no RDPGFX capability set farland supports")
    | some n => do
      let s ← send { s with negotiated := some n, state := .ready } (.capsConfirm (makeCapabilitySet n.version n.flags))
      pure { s with events := s.events ++ [.ready n reset] }

def onFrameAcknowledge (queueDepth frameId totalFramesDecoded : ℕ) : GfxServer :=
  let known := s.unacked.contains frameId
  let suspended := queueDepth == suspendFrameAcknowledgement
  let unacked :=
    if suspended then []
    else if known then s.unacked.drop (s.unacked.idxOf frameId + 1)
    else s.unacked
  { s with queueDepth := queueDepth, totalFramesDecoded := totalFramesDecoded, acksSuspended := suspended,
           unacked := unacked, events := s.events ++ [.frameAcked frameId queueDepth totalFramesDecoded known] }

def onCacheImportOffer (entries : List CacheEntryMetadata) : Option GfxServer := do
  let s ← s.send (.cacheImportReply [])
  pure { s with events := s.events ++ [.cacheImportOffered entries.length 0] }

def handlePdu (bytes : List UInt8) : Option GfxServer :=
  match decodePdu bytes with
  | .error e => some (s.fail ("malformed RDPGFX PDU: " ++ e.message))
  | .ok (.capsAdvertise capsSets) => s.onCapsAdvertise capsSets
  | .ok pdu =>
    if s.state ≠ .ready then some (s.fail "RDPGFX PDU before Caps Advertise")
    else
      match pdu with
      | .frameAcknowledge queueDepth frameId totalFramesDecoded =>
        some (s.onFrameAcknowledge queueDepth frameId totalFramesDecoded)
      | .qoeFrameAcknowledge frameId timestamp timeDiffSe timeDiffEdr =>
        some { s with events := s.events ++ [.qoeFrameAcked frameId timestamp timeDiffSe timeDiffEdr] }
      | .cacheImportOffer entries => s.onCacheImportOffer entries
      | _ => some (s.fail "server-to-client RDPGFX PDU received from the client")

/-- The loop of `receive` over the buffered input; every PDU is at least a
header long, so the bytes bound the iterations. -/
def receiveLoop : ℕ → GfxServer → List UInt8 → Option (GfxServer × List UInt8)
  | 0, s, rest => some (s, rest)
  | fuel + 1, s, rest =>
    if s.state = .failed then some (s, rest)
    else
      match framePdu rest maxClientPduSize with
      | .error e => some (s.fail ("malformed RDPGFX header: " ++ e.message), rest)
      | .ok none => some (s, rest)
      | .ok (some size) =>
        match s.handlePdu (rest.take size) with
        | none => none
        | some s => receiveLoop fuel s (rest.drop size)

def receive (bytes : List UInt8) : Option GfxServer :=
  if s.state = .failed then some s
  else
    let input := s.input ++ bytes
    match receiveLoop (input.length + 1) { s with input := input } input with
    | none => none
    | some (s, rest) => some { s with input := if s.state = .failed then [] else rest }

/-! ### Commands -/

/-- False after a failure; asserts that the server is ready otherwise. -/
def usable : Option Bool :=
  if s.state = .failed then some false
  else do
    assert (s.state == .ready)
    pure true

/-- Runs the body of a command unless the server has failed. -/
def whenUsable {α : Type} (s : GfxServer) (otherwise : α) (body : Option (GfxServer × α)) : Option (GfxServer × α) := do
  if ← s.usable then body else pure (s, otherwise)

def caps : Option Negotiated := s.negotiated

def surface (surfaceId : ℕ) : Option Surface := s.surfaces.lookup surfaceId

def cacheEntry (cacheSlot : ℕ) : Option CacheEntry := do
  assert (cacheSlot ≥ 1 && cacheSlot ≤ s.cache.length)
  let entry ← s.cache[cacheSlot - 1]?
  assert entry.used
  pure entry

def inside (rect : Rect16) (width height : ℕ) : Bool :=
  !rect.empty && rect.right ≤ width && rect.bottom ≤ height

def fits (point : Point16) (width height destWidth destHeight : ℕ) : Bool :=
  point.x ≥ 0 && point.y ≥ 0 && point.x + width ≤ destWidth && point.y + height ≤ destHeight

/-- The monitor of an output without a layout. -/
def wholeOutput (width height : ℕ) : MonitorDef := ⟨0, 0, (width : ℤ) - 1, (height : ℤ) - 1, monitorPrimary⟩

def resetGraphics (width height : ℕ) (monitors : List MonitorDef) : Option (GfxServer × Unit) :=
  s.whenUsable () do
    assert (!s.inFrame)
    assert (width ≥ 1 && width ≤ maxOutputSize && height ≥ 1 && height ≤ maxOutputSize)
    assert (monitors.length ≤ maxMonitors)
    let s ← s.send (.resetGraphics width height (if monitors = [] then [wholeOutput width height] else monitors))
    pure ({ s with graphicsReset := true, codecContexts := [] }, ())

/-- The loop of `create_surface` over the ids in order: the first gap. -/
def lowestUnused : ℕ → List ℕ → ℕ
  | id, [] => id
  | id, used :: ids => if used ≠ id then id else lowestUnused (id + 1) ids

/-- `std::map::emplace` of a new key. -/
def insertSurface (id : ℕ) (surface : Surface) : List (ℕ × Surface) → List (ℕ × Surface)
  | [] => [(id, surface)]
  | (k, v) :: rest => if id < k then (id, surface) :: (k, v) :: rest else (k, v) :: insertSurface id surface rest

def createSurface (width height format : ℕ) : Option (GfxServer × ℕ) :=
  s.whenUsable 0 do
    assert s.graphicsReset
    assert (width > 0 && height > 0 && validPixelFormat format)
    assert (s.surfaces.length ≤ 65535)
    let id := lowestUnused 0 (s.surfaces.map Prod.fst)
    let s ← send { s with surfaces := insertSurface id ⟨width, height, format⟩ s.surfaces }
      (.createSurface id width height format)
    pure (s, id)

def deleteSurface (surfaceId : ℕ) : Option (GfxServer × Unit) :=
  s.whenUsable () do
    assert ((s.surface surfaceId).isSome)
    let s ← send { s with
        surfaces := s.surfaces.filter (·.1 ≠ surfaceId)
        codecContexts := s.codecContexts.filter (·.1 ≠ surfaceId) } (.deleteSurface surfaceId)
    pure (s, ())

def mapSurfaceToOutput (surfaceId x y : ℕ) : Option (GfxServer × Unit) :=
  s.whenUsable () do
    let _ ← s.surface surfaceId
    let s ← s.send (.mapSurfaceToOutput surfaceId x y)
    pure (s, ())

def mapSurfaceToScaledOutput (surfaceId x y targetWidth targetHeight : ℕ) : Option (GfxServer × Unit) :=
  s.whenUsable () do
    let caps ← s.caps
    assert caps.scaledOutput
    let _ ← s.surface surfaceId
    let s ← s.send (.mapSurfaceToScaledOutput surfaceId x y targetWidth targetHeight)
    pure (s, ())

def mapSurfaceToWindow (surfaceId windowId mappedWidth mappedHeight : ℕ) : Option (GfxServer × Unit) :=
  s.whenUsable () do
    let _ ← s.surface surfaceId
    let s ← s.send (.mapSurfaceToWindow surfaceId windowId mappedWidth mappedHeight)
    pure (s, ())

def mapSurfaceToScaledWindow (surfaceId windowId mappedWidth mappedHeight targetWidth targetHeight :
    ℕ) : Option (GfxServer × Unit) :=
  s.whenUsable () do
    let caps ← s.caps
    assert caps.scaledOutput
    let _ ← s.surface surfaceId
    let s ← s.send (.mapSurfaceToScaledWindow surfaceId windowId mappedWidth mappedHeight targetWidth targetHeight)
    pure (s, ())

/-- Frame ids are 32-bit and wrap around. -/
def startFrame (timestamp : ℕ) : Option (GfxServer × ℕ) :=
  s.whenUsable 0 do
    assert (!s.inFrame)
    assert (validTimestamp timestamp)
    let s := { s with inFrame := true, currentFrame := s.nextFrameId, nextFrameId := (s.nextFrameId + 1) % 2 ^ 32 }
    let s ← s.send (.startFrame timestamp s.currentFrame)
    pure (s, s.currentFrame)

def endFrame : Option (GfxServer × Unit) :=
  s.whenUsable () do
    assert s.inFrame
    let s ← send { s with inFrame := false } (.endFrame s.currentFrame)
    pure (if s.acksSuspended then s else { s with unacked := s.unacked ++ [s.currentFrame] }, ())

def wireToSurface1 (surfaceId codecId format : ℕ) (destRect : Rect16) (bitmapData : List UInt8) :
    Option (GfxServer × Unit) :=
  s.whenUsable () do
    let target ← s.surface surfaceId
    assert s.inFrame
    let caps ← s.caps
    assert (codecId != CodecId.progressive && caps.allows codecId)
    assert (validPixelFormat format)
    assert (inside destRect target.width target.height)
    let s ← s.send (.wireToSurface1 surfaceId codecId format destRect bitmapData)
    pure (s, ())

def wireToSurface2 (surfaceId codecId codecContextId format : ℕ) (bitmapData : List UInt8) :
    Option (GfxServer × Unit) :=
  s.whenUsable () do
    let _ ← s.surface surfaceId
    assert s.inFrame
    let caps ← s.caps
    assert (codecId == CodecId.progressive && caps.allows codecId)
    assert (validPixelFormat format)
    let s ← send { s with codecContexts := s.codecContexts.insert (surfaceId, codecContextId) }
      (.wireToSurface2 surfaceId codecId codecContextId format bitmapData)
    pure (s, ())

def deleteEncodingContext (surfaceId codecContextId : ℕ) : Option (GfxServer × Unit) :=
  s.whenUsable () do
    assert (s.codecContexts.contains (surfaceId, codecContextId))
    let s ← send { s with codecContexts := s.codecContexts.erase (surfaceId, codecContextId) }
      (.deleteEncodingContext surfaceId codecContextId)
    pure (s, ())

def solidFill (surfaceId : ℕ) (color : Color32) (rects : List Rect16) : Option (GfxServer × Unit) :=
  s.whenUsable () do
    let target ← s.surface surfaceId
    assert s.inFrame
    assert (rects != [] && rects.length ≤ 65535)
    assert (rects.all fun rect => inside rect target.width target.height)
    let s ← s.send (.solidFill surfaceId color rects)
    pure (s, ())

def surfaceToSurface (srcSurfaceId destSurfaceId : ℕ) (srcRect : Rect16) (destPoints : List Point16) :
    Option (GfxServer × Unit) :=
  s.whenUsable () do
    let src ← s.surface srcSurfaceId
    let dest ← s.surface destSurfaceId
    assert s.inFrame
    assert (inside srcRect src.width src.height)
    assert (destPoints != [] && destPoints.length ≤ 65535)
    assert (destPoints.all fun point => fits point srcRect.width srcRect.height dest.width dest.height)
    let s ← s.send (.surfaceToSurface srcSurfaceId destSurfaceId srcRect destPoints)
    pure (s, ())

/-- The loop of `surface_to_cache` from `index` on; it goes round the slots,
so `none` after as many rounds as there are slots is a loop without end. -/
def freeSlot (cache : List CacheEntry) : ℕ → ℕ → Option ℕ
  | 0, _ => none
  | fuel + 1, index =>
    match cache[index]? with
    | none => none
    | some entry => if entry.used then freeSlot cache fuel ((index + 1) % cache.length) else some index

/-- Sized on first use. -/
def sizedCache (slots : ℕ) : List CacheEntry :=
  if s.cache = [] then List.replicate slots {} else s.cache

/-- The size of a rectangle in the cache, in 32-bit arithmetic. -/
def cacheSizeOf (rect : Rect16) : ℕ := rect.width * rect.height * bytesPerPixel % 2 ^ 32

def surfaceToCache (surfaceId : ℕ) (srcRect : Rect16) (cacheKey : ℕ) : Option (GfxServer × Option ℕ) :=
  s.whenUsable none do
    let src ← s.surface surfaceId
    assert s.inFrame
    assert (inside srcRect src.width src.height)
    assert (s.cacheKeys.lookup cacheKey).isNone
    let bytes := cacheSizeOf srcRect
    let n ← s.caps
    if s.cacheBytes + bytes > n.maxCacheBytes ∨ s.cacheKeys.length ≥ n.maxCacheSlots then pure (s, none)
    else
      let cache := s.sizedCache n.maxCacheSlots
      let index ← freeSlot cache cache.length s.cacheHint
      let slot := (index + 1) % 2 ^ 16
      let s ← send { s with
          cache := cache.set index ⟨cacheKey, bytes, srcRect.width, srcRect.height, true⟩
          cacheHint := (index + 1) % cache.length
          cacheKeys := (cacheKey, slot) :: s.cacheKeys
          cacheBytes := (s.cacheBytes + bytes) % 2 ^ 64 } (.surfaceToCache surfaceId cacheKey slot srcRect)
      pure (s, some slot)

def cacheToSurface (cacheSlot surfaceId : ℕ) (destPoints : List Point16) : Option (GfxServer × Unit) :=
  s.whenUsable () do
    let entry ← s.cacheEntry cacheSlot
    let dest ← s.surface surfaceId
    assert s.inFrame
    assert (destPoints != [] && destPoints.length ≤ 65535)
    assert (destPoints.all fun point => fits point entry.width entry.height dest.width dest.height)
    let s ← s.send (.cacheToSurface cacheSlot surfaceId destPoints)
    pure (s, ())

def evictCacheEntry (cacheSlot : ℕ) : Option (GfxServer × Unit) :=
  s.whenUsable () do
    let entry ← s.cacheEntry cacheSlot
    let s ← send { s with
        cacheKeys := s.cacheKeys.filter (·.1 ≠ entry.key)
        cacheBytes := (s.cacheBytes + 2 ^ 64 - entry.bytes) % 2 ^ 64
        cache := s.cache.set (cacheSlot - 1) {}
        cacheHint := min s.cacheHint (cacheSlot - 1) } (.evictCacheEntry cacheSlot)
    pure (s, ())

def cacheSlot (cacheKey : ℕ) : Option ℕ := s.cacheKeys.lookup cacheKey

end GfxServer

/-! ### Runs -/

/-- The calls of the class. -/
inductive Command where
  | receive (bytes : List UInt8)
  | takeOutput
  | pollEvent
  | resetGraphics (width height : ℕ) (monitors : List MonitorDef)
  | createSurface (width height format : ℕ)
  | deleteSurface (surfaceId : ℕ)
  | mapSurfaceToOutput (surfaceId x y : ℕ)
  | mapSurfaceToScaledOutput (surfaceId x y targetWidth targetHeight : ℕ)
  | mapSurfaceToWindow (surfaceId windowId mappedWidth mappedHeight : ℕ)
  | mapSurfaceToScaledWindow (surfaceId windowId mappedWidth mappedHeight targetWidth targetHeight : ℕ)
  | startFrame (timestamp : ℕ)
  | endFrame
  | wireToSurface1 (surfaceId codecId format : ℕ) (destRect : Rect16) (bitmapData : List UInt8)
  | wireToSurface2 (surfaceId codecId codecContextId format : ℕ) (bitmapData : List UInt8)
  | deleteEncodingContext (surfaceId codecContextId : ℕ)
  | solidFill (surfaceId : ℕ) (color : Color32) (rects : List Rect16)
  | surfaceToSurface (srcSurfaceId destSurfaceId : ℕ) (srcRect : Rect16) (destPoints : List Point16)
  | surfaceToCache (surfaceId : ℕ) (srcRect : Rect16) (cacheKey : ℕ)
  | cacheToSurface (cacheSlot surfaceId : ℕ) (destPoints : List Point16)
  | evictCacheEntry (cacheSlot : ℕ)
  deriving DecidableEq

open GfxServer in
/-- The state after a call; `none` is a failed assertion (or a loop without
end). -/
def step (s : GfxServer) : Command → Option GfxServer
  | .receive bytes => s.receive bytes
  | .takeOutput => some { s with output := [] }
  | .pollEvent => some { s with events := s.events.tail }
  | .resetGraphics width height monitors => (s.resetGraphics width height monitors).map Prod.fst
  | .createSurface width height format => (s.createSurface width height format).map Prod.fst
  | .deleteSurface surfaceId => (s.deleteSurface surfaceId).map Prod.fst
  | .mapSurfaceToOutput surfaceId x y => (s.mapSurfaceToOutput surfaceId x y).map Prod.fst
  | .mapSurfaceToScaledOutput surfaceId x y w h => (s.mapSurfaceToScaledOutput surfaceId x y w h).map Prod.fst
  | .mapSurfaceToWindow surfaceId windowId w h => (s.mapSurfaceToWindow surfaceId windowId w h).map Prod.fst
  | .mapSurfaceToScaledWindow surfaceId windowId w h tw th =>
    (s.mapSurfaceToScaledWindow surfaceId windowId w h tw th).map Prod.fst
  | .startFrame timestamp => (s.startFrame timestamp).map Prod.fst
  | .endFrame => s.endFrame.map Prod.fst
  | .wireToSurface1 surfaceId codecId format rect data => (s.wireToSurface1 surfaceId codecId format rect data).map
    Prod.fst
  | .wireToSurface2 surfaceId codecId context format data =>
    (s.wireToSurface2 surfaceId codecId context format data).map Prod.fst
  | .deleteEncodingContext surfaceId context => (s.deleteEncodingContext surfaceId context).map Prod.fst
  | .solidFill surfaceId color rects => (s.solidFill surfaceId color rects).map Prod.fst
  | .surfaceToSurface src dest rect points => (s.surfaceToSurface src dest rect points).map Prod.fst
  | .surfaceToCache surfaceId rect key => (s.surfaceToCache surfaceId rect key).map Prod.fst
  | .cacheToSurface slot surfaceId points => (s.cacheToSurface slot surfaceId points).map Prod.fst
  | .evictCacheEntry slot => (s.evictCacheEntry slot).map Prod.fst

def run : GfxServer → List Command → Option GfxServer
  | s, [] => some s
  | s, c :: cs => (step s c).bind fun s => run s cs

end Rdpgfx
end Channels
end Farland
