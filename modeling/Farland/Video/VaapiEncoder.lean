/-
# The VA-API encoder

Which picture each call of `video/vaapi_encoder.cpp` codes, against which
reference and under which numbers. The driver and the access unit writer are
what they answer: for each call either nothing, or the error that the encoder
makes of it. The contents of pictures, headers and parameter buffers are left
out, and so are the sizes that `encode` asserts of its picture.

State moves on only with an access unit that is returned, so whatever fails in
between, the next P picture refers to the picture returned last (`Inv`). The
number of an IDR picture is kept with the session. A session that is opened
again starts over, and `Repeats` is when that shows: right behind the first IDR
picture of a session, whose number the next one gets again.

Key theorems: **`run_decodable`**, `reopened_twice`.
-/
import Farland.Base.Reader

namespace Farland
namespace Video
namespace Vaapi

def log2MaxFrameNum : ℕ := 16
def log2MaxPocLsb : ℕ := 16
def maxFramesBetweenIdr : ℕ := 2 ^ 29

/-! ### Rate control -/

inductive RateMode where
  | constantQuality
  | bitrate
  deriving DecidableEq

structure RateControl where
  mode : RateMode := .constantQuality
  quality : ℕ := 23
  bitrateKbps : ℕ := 0
  maxBitrateKbps : ℕ := 0
  vbvWindowMs : ℕ := 500
  deriving DecidableEq

def RateControl.validate (rate : RateControl) : Result Unit :=
  if 51 < rate.quality then fail .invalidValue "H.264 quality must be a QP in 0..51"
  else if 1000000 < rate.bitrateKbps ∨ 1000000 < rate.maxBitrateKbps then
    fail .invalidValue "H.264 bitrate is above 1 Gbit/s"
  else if rate.mode = .bitrate ∧ rate.bitrateKbps = 0 then fail .invalidValue "H.264 bitrate mode needs a bitrate"
  else if rate.mode = .bitrate ∧ rate.maxBitrateKbps ≠ 0 ∧ rate.maxBitrateKbps < rate.bitrateKbps then
    fail .invalidValue "H.264 maximum bitrate is below the target bitrate"
  else if rate.vbvWindowMs = 0 ∨ 10000 < rate.vbvWindowMs then
    fail .invalidValue "H.264 VBV window must be 1..10000 ms"
  else .ok ()

structure EncoderConfig where
  width : ℕ := 0
  height : ℕ := 0
  fps : ℕ := 30
  rate : RateControl := {}
  threads : ℕ := 1
  /-- Largest distance between IDR frames; 0 means IDR only on request. -/
  keyint : ℕ := 0
  referenceFrames : ℕ := 1
  deriving DecidableEq

def EncoderConfig.validate (config : EncoderConfig) : Result Unit :=
  if [config.width, config.height].any fun side => side = 0 || side % 16 ≠ 0 || 8192 < side then
    fail .invalidValue "H.264 picture sides must be multiples of 16 up to 8192"
  else if config.fps = 0 ∨ 240 < config.fps then fail .invalidValue "H.264 frame rate must be 1..240"
  else if config.threads = 0 ∨ 16 < config.threads then fail .invalidValue "H.264 encoder threads must be 1..16"
  else if config.referenceFrames = 0 ∨ 4 < config.referenceFrames then
    fail .invalidValue "H.264 reference frames must be 1..4"
  else config.rate.validate

/-- The bits of `VAConfigAttribRateControl`. -/
def rcCbr : ℕ := 0x2
def rcVbr : ℕ := 0x4
def rcCqp : ℕ := 0x10

structure RcParams where
  mode : ℕ := rcCqp
  qp : ℕ := 23
  bitsPerSecond : ℕ := 0
  targetPercentage : ℕ := 100
  minQp : ℕ := 0
  hrdBits : ℕ := 0
  deriving DecidableEq

/-- With a cap on the bitrate, if the driver has the mode. -/
def RcParams.capped (rc : RcParams) (rate : RateControl) (capKbps supported : ℕ) : Result RcParams :=
  if supported &&& rc.mode = 0 then fail .unsupported "the VA-API encoder has no bitrate control"
  else .ok { rc with
    bitsPerSecond := capKbps * 1000 % 2 ^ 32
    hrdBits := max 1 (capKbps * rate.vbvWindowMs) % 2 ^ 32 }

def rcParams (rate : RateControl) (supported : ℕ) : Result RcParams :=
  let has (mode : ℕ) : Bool := supported &&& mode ≠ 0
  let rc : RcParams := { qp := rate.quality }
  match rate.mode with
  | .constantQuality =>
    if rate.maxBitrateKbps = 0 then
      if has rcCqp then .ok rc else fail .unsupported "the VA-API encoder has no constant-QP rate control"
    else { rc with minQp := rate.quality, mode := if has rcVbr then rcVbr else rcCbr }.capped rate rate.maxBitrateKbps supported
  | .bitrate =>
    let capKbps := max rate.maxBitrateKbps rate.bitrateKbps
    if rate.bitrateKbps < capKbps && has rcVbr then
      { rc with mode := rcVbr, targetPercentage := max 1 (rate.bitrateKbps * 100 / capKbps) }.capped rate capKbps supported
    else { rc with mode := if has rcCbr then rcCbr else rcVbr }.capped rate rate.bitrateKbps supported

/-! ### Pictures -/

/-- The surfaces that the driver made for a session: three of them. -/
structure Surfaces where
  input : ℕ
  first : ℕ
  second : ℕ
  distinct : input ≠ first ∧ input ≠ second ∧ first ≠ second

/-- `VAPictureH264`. -/
structure Picture where
  surface : ℕ
  frameIdx : ℕ
  orderCount : ℕ
  deriving DecidableEq

/-- What a picture is coded with. The reference stands in `ReferenceFrames` and `RefPicList0`. -/
structure AccessUnit where
  idr : Bool
  input : ℕ
  current : Picture
  reference : Option Picture
  frameNum : ℕ
  idrPicId : ℕ
  orderCountLsb : ℕ
  deriving DecidableEq

/-- What a picture is handed to the driver with, and what is done with its answer. -/
inductive PictureCall where
  | sequence
  | rateControl
  | hrd
  | frameRate
  | packedSequence
  | packedPicture
  | picture
  | packedSlice
  | slice
  | render
  | readCoded
  | finish
  deriving DecidableEq

structure Packed where
  sequence : Bool := false
  picture : Bool := false
  slice : Bool := false
  deriving DecidableEq

structure Impl where
  /-- The surfaces of the session that is open. -/
  session : Option Surfaces := none
  config : EncoderConfig := {}
  rcModes : ℕ := 0
  packed : Packed := {}
  rc : RcParams := {}
  rcDirty : Bool := false
  picInitQp : ℕ := 26
  forceIdr : Bool := true
  framesSinceIdr : ℕ := 0
  idrPicId : ℕ := 0
  /-- Whether the second surface is written next. -/
  recon : Bool := false
  previousFrameNum : ℕ := 0
  previousPoc : ℕ := 0

namespace Impl

variable (s : Impl)

def rateControlCalls : List PictureCall := if s.rc.mode = rcCqp then [] else [.rateControl, .hrd]

/-- The calls for one picture, in order. -/
def pictureCalls (idr : Bool) : List PictureCall :=
  (if idr then
    [.sequence] ++ s.rateControlCalls ++ [.frameRate] ++ (if s.packed.sequence then [.packedSequence] else []) ++
      if s.packed.picture then [.packedPicture] else []
  else if s.rcDirty then s.rateControlCalls else []) ++
  [.picture] ++ (if s.packed.slice then [.packedSlice] else []) ++ [.slice, .render, .readCoded, .finish]

def idr (forced : Bool) : Bool :=
  s.forceIdr || forced || maxFramesBetweenIdr ≤ s.framesSinceIdr ||
    (s.config.keyint ≠ 0 && s.config.keyint ≤ s.framesSinceIdr)

variable (surfaces : Surfaces)

def reconstructed : ℕ := if s.recon then surfaces.second else surfaces.first

def reference : ℕ := if s.recon then surfaces.first else surfaces.second

/-- The access unit of picture number `index` of its sequence. -/
def accessUnit (idr : Bool) (index : ℕ) : AccessUnit where
  idr := idr
  input := surfaces.input
  current := ⟨s.reconstructed surfaces, index % 2 ^ log2MaxFrameNum, 2 * index⟩
  reference := if idr then none else some ⟨s.reference surfaces, s.previousFrameNum, s.previousPoc⟩
  frameNum := index % 2 ^ log2MaxFrameNum
  idrPicId := if idr then (s.idrPicId + 1) % 2 ^ 16 else s.idrPicId
  orderCountLsb := 2 * index % 2 ^ log2MaxPocLsb

/-- The state behind an access unit that is returned. -/
def advanced (a : AccessUnit) (index : ℕ) : Impl :=
  { s with
    idrPicId := if a.idr then a.idrPicId else s.idrPicId
    forceIdr := false
    rcDirty := false
    previousFrameNum := a.frameNum
    previousPoc := a.current.orderCount
    recon := !s.recon
    framesSinceIdr := index + 1 }

def encodeInput (forced : Bool) (driver : PictureCall → Option Error) : Result AccessUnit × Impl :=
  let idr := s.idr forced
  let index := if idr then 0 else s.framesSinceIdr
  match (s.pictureCalls idr).findSome? driver with
  | some e => (.error e, s)
  | none => (.ok (s.accessUnit surfaces idr index), s.advanced (s.accessUnit surfaces idr index) index)

/-! ### Calls -/

/-- What the driver answers when a session is opened. -/
structure OpenDriver where
  /-- The rate control modes and the packed headers it has. -/
  describe : Result (ℕ × Packed)
  create : Result Surfaces
  clearInput : Option Error

def openSession (next : EncoderConfig) (driver : OpenDriver) : Result Unit × Impl :=
  let s := { s with session := none }
  match driver.describe with
  | .error e => (.error e, s)
  | .ok (modes, packed) =>
    let s := { s with rcModes := modes }
    match rcParams next.rate modes with
    | .error e => (.error e, s)
    | .ok rc =>
      let s := { s with rc := rc, packed := packed }
      match driver.create with
      | .error e => (.error e, s)
      | .ok surfaces =>
        let s := { s with
          config := next
          picInitQp := if rc.mode = rcCqp then rc.qp else 26
          rcDirty := false
          forceIdr := true
          framesSinceIdr := 0
          idrPicId := 0
          recon := false }
        match driver.clearInput with
        | some e => (.error e, s)
        | none => (.ok (), { s with session := some surfaces })

def configure (config : EncoderConfig) (driver : OpenDriver) : Result Unit × Impl :=
  match config.validate with
  | .error e => (.error e, s)
  | .ok () => s.openSession config driver

def setRateControl (rate : RateControl) (driver : OpenDriver) : Result Unit × Impl :=
  match rate.validate with
  | .error e => (.error e, s)
  | .ok () =>
    if s.session.isNone then (fail .io "VA-API encoder is not configured", s)
    else
      match rcParams rate s.rcModes with
      | .error e => (.error e, s)
      | .ok next =>
        if next = s.rc then (.ok (), { s with config := { s.config with rate := rate } })
        else if next.mode ≠ s.rc.mode then s.openSession { s.config with rate := rate } driver
        else
          let s := { s with rc := next, config := { s.config with rate := rate } }
          -- pic_init_qp is in the PPS, which only an IDR brings along
          (.ok (), if next.mode = rcCqp then { s with picInitQp := next.qp, forceIdr := true } else { s with rcDirty := true })

def requestIdr : Impl := { s with forceIdr := true }

/-- `encode_input`, and an IDR picture next if it failed. -/
def encodeOrForce (forced : Bool) (driver : PictureCall → Option Error) : Result AccessUnit × Impl :=
  match s.encodeInput surfaces forced driver with
  | (.error e, s) => (.error e, { s with forceIdr := true })
  | done => done

def encode (forced : Bool) (upload : Option Error) (driver : PictureCall → Option Error) : Result AccessUnit × Impl :=
  match s.session, upload with
  | none, _ => (fail .io "VA-API encoder is not configured", s)
  | some _, some e => (.error e, { s with forceIdr := true })
  | some surfaces, none => s.encodeOrForce surfaces forced driver

def encodeDmabuf (forced : Bool) (convert : Option Error) (driver : PictureCall → Option Error) :
    Result AccessUnit × Impl :=
  match s.session, convert with
  | none, _ => (fail .io "VA-API encoder is not configured", s)
  | some _, some e => (.error e, s)
  | some surfaces, none => s.encodeOrForce surfaces forced driver

/-! ### Runs -/

inductive Call where
  | configure (config : EncoderConfig) (driver : OpenDriver)
  | setRateControl (rate : RateControl) (driver : OpenDriver)
  | requestIdr
  | encode (forced : Bool) (upload : Option Error) (driver : PictureCall → Option Error)
  | encodeDmabuf (forced : Bool) (convert : Option Error) (driver : PictureCall → Option Error)

/-- One call: the access unit that it returns, if it does. -/
def call : Call → Option AccessUnit × Impl
  | .configure config driver => (none, (s.configure config driver).2)
  | .setRateControl rate driver => (none, (s.setRateControl rate driver).2)
  | .requestIdr => (none, s.requestIdr)
  | .encode forced upload driver => ((s.encode forced upload driver).1.toOption, (s.encode forced upload driver).2)
  | .encodeDmabuf forced convert driver =>
    ((s.encodeDmabuf forced convert driver).1.toOption, (s.encodeDmabuf forced convert driver).2)

/-- The access units that a run returns. -/
def stream (s : Impl) : List Call → List AccessUnit
  | [] => []
  | what :: calls => (s.call what).1.toList ++ (s.call what).2.stream calls

/-- The last picture is the first IDR picture of its session, which has the number 1. -/
def FirstIdr : Prop := s.framesSinceIdr = 1 ∧ s.idrPicId = 1

/-- A session is to be opened right behind that picture. -/
def Repeats : Call → Prop
  | .configure config _ => config.validate = .ok () ∧ s.FirstIdr
  | .setRateControl rate _ => s.session.isSome = true ∧ rate.validate = .ok () ∧
      (∃ next, rcParams rate s.rcModes = .ok next ∧ next.mode ≠ s.rc.mode) ∧ s.FirstIdr
  | _ => False

/-- No call of a run is of that kind. -/
def Spared (s : Impl) : List Call → Prop
  | [] => True
  | what :: calls => ¬ s.Repeats what ∧ (s.call what).2.Spared calls

end Impl

/-! ### Streams that can be decoded -/

/-- What holds of a picture by itself. -/
structure AccessUnit.Sound (a : AccessUnit) : Prop where
  idr : a.idr = true → a.frameNum = 0 ∧ a.current.orderCount = 0 ∧ a.reference = none
  frameIdx : a.current.frameIdx = a.frameNum
  lsb : a.orderCountLsb = a.current.orderCount % 2 ^ log2MaxPocLsb
  input : a.current.surface ≠ a.input
  reference : ∀ r, a.reference = some r → r.surface ≠ a.current.surface ∧ r.surface ≠ a.input

/-- `b` may come right behind `a`. -/
structure Follows (a b : AccessUnit) : Prop where
  predicted : b.idr = false → b.reference = some a.current ∧
    b.frameNum = (a.frameNum + 1) % 2 ^ log2MaxFrameNum ∧ b.current.orderCount = a.current.orderCount + 2
  idrPicId : a.idr = true → b.idr = true → a.idrPicId ≠ b.idrPicId

structure Decodable (stream : List AccessUnit) : Prop where
  first : ∀ a ∈ stream.head?, a.idr = true
  sound : ∀ a ∈ stream, a.Sound
  follows : stream.IsChain Follows

namespace Impl

variable {s : Impl} {last : Option AccessUnit}

/-- What the encoder knows of the access unit returned last. -/
structure Inv (s : Impl) (last : Option AccessUnit) : Prop where
  /-- The next picture is an IDR picture, or it refers to the last one. -/
  reference : ∀ surfaces, s.session = some surfaces → s.forceIdr = false → ∃ a, last = some a ∧
    a.current = ⟨s.reference surfaces, s.previousFrameNum, s.previousPoc⟩ ∧ a.frameNum = s.previousFrameNum ∧
    ∃ index, s.framesSinceIdr = index + 1 ∧ s.previousFrameNum = index % 2 ^ log2MaxFrameNum ∧ s.previousPoc = 2 * index
  /-- An IDR picture has the number of its session, or that session is over. -/
  idrPicId : ∀ a, last = some a → a.idr = true →
    (s.framesSinceIdr = 1 ∧ s.idrPicId = a.idrPicId) ∨ (s.idrPicId = 0 ∧ a.idrPicId ≠ 1)
  small : s.idrPicId < 2 ^ 16

theorem inv_fresh : Inv {} none where
  reference := by simp
  idrPicId := by simp
  small := by decide

theorem Inv.force (h : Inv s last) : Inv { s with forceIdr := true } last :=
  ⟨fun _ _ hf => (by cases hf), h.idrPicId, h.small⟩

/-- `a` may come behind the access unit returned last, if there is one. -/
structure Next (last : Option AccessUnit) (a : AccessUnit) : Prop where
  first : last = none → a.idr = true
  follows : ∀ b, last = some b → Follows b a

/-- What one call leaves, and what it may return. -/
structure Steps (last : Option AccessUnit) (done : Option AccessUnit × Impl) : Prop where
  kept : done.1 = none → Inv done.2 last
  returned : ∀ a, done.1 = some a → Inv done.2 (some a) ∧ a.Sound ∧ Next last a

theorem Steps.keep (h : Inv s last) : Steps last (none, s) := ⟨fun _ => h, fun _ ha => by cases ha⟩

/-! ### Sessions -/

/-- A session that is not opened right behind the first IDR picture of another. -/
theorem openSession_inv (h : Inv s last) (hnot : ¬ s.FirstIdr) (next : EncoderConfig)
    (driver : OpenDriver) : Inv (s.openSession next driver).2 last := by
  have hfresh : ∀ a, last = some a → a.idr = true → a.idrPicId ≠ 1 := by
    intro a ha hidr hone
    rcases h.idrPicId a ha hidr with ⟨hframes, hid⟩ | ⟨-, hother⟩
    · exact hnot ⟨hframes, hid.trans hone⟩
    · exact hother hone
  have hclosed : ∀ modes packed rc, Inv { s with session := none, rcModes := modes, packed := packed, rc := rc } last :=
    fun _ _ _ => ⟨fun _ hs => (by cases hs), h.idrPicId, h.small⟩
  unfold openSession
  cases driver.describe with
  | error e => exact hclosed _ _ _
  | ok found =>
    obtain ⟨modes, packed⟩ := found
    dsimp only
    cases rcParams next.rate modes with
    | error e => exact hclosed _ _ _
    | ok rc =>
      dsimp only
      cases driver.create with
      | error e => exact hclosed _ _ _
      | ok surfaces =>
        dsimp only
        cases driver.clearInput with
        | some e => exact ⟨fun _ hs => (by cases hs), fun a ha hidr => .inr ⟨rfl, hfresh a ha hidr⟩, Nat.two_pow_pos 16⟩
        | none => exact ⟨fun _ _ hf => (by cases hf), fun a ha hidr => .inr ⟨rfl, hfresh a ha hidr⟩, Nat.two_pow_pos 16⟩

theorem configure_inv (h : Inv s last) {config : EncoderConfig} {driver : OpenDriver}
    (hnot : ¬ s.Repeats (.configure config driver)) : Inv (s.configure config driver).2 last := by
  unfold configure
  cases hvalid : config.validate with
  | error e => exact h
  | ok _ => exact openSession_inv h (fun hfirst => hnot ⟨hvalid, hfirst⟩) config driver

theorem setRateControl_inv (h : Inv s last) {rate : RateControl} {driver : OpenDriver}
    (hnot : ¬ s.Repeats (.setRateControl rate driver)) : Inv (s.setRateControl rate driver).2 last := by
  unfold setRateControl
  cases hvalid : rate.validate with
  | error e => exact h
  | ok _ =>
    dsimp only
    split_ifs with hnone
    · exact h
    · cases hnext : rcParams rate s.rcModes with
      | error e => exact h
      | ok next =>
        dsimp only
        split_ifs with hsame hmode
        · exact ⟨h.reference, h.idrPicId, h.small⟩
        · have hsome : s.session.isSome = true := Option.isSome_iff_ne_none.mpr (by simpa using hnone)
          exact openSession_inv h (fun hfirst => hnot ⟨hsome, hvalid, ⟨next, hnext, hmode⟩, hfirst⟩) _ driver
        · exact ⟨fun _ _ hf => (by cases hf), h.idrPicId, h.small⟩
        · exact ⟨h.reference, h.idrPicId, h.small⟩

/-! ### Pictures -/

theorem accessUnit_sound (s : Impl) (surfaces : Surfaces) (idr : Bool) (index : ℕ) (hzero : idr = true → index = 0) :
    (s.accessUnit surfaces idr index).Sound := by
  obtain ⟨hfirst, hsecond, hboth⟩ := surfaces.distinct
  have hsurfaces : s.reconstructed surfaces ≠ surfaces.input ∧ s.reference surfaces ≠ s.reconstructed surfaces ∧
      s.reference surfaces ≠ surfaces.input := by
    unfold reconstructed reference
    cases s.recon
    · exact ⟨hfirst.symm, hboth.symm, hsecond.symm⟩
    · exact ⟨hsecond.symm, hboth, hfirst.symm⟩
  refine ⟨?_, rfl, rfl, hsurfaces.1, ?_⟩
  · intro hidr
    have hindex := hzero hidr
    have hset : idr = true := hidr
    simp [accessUnit, hindex, hset]
  · intro r hr
    cases idr
    · obtain rfl := Option.some.inj hr
      exact ⟨hsurfaces.2.1, hsurfaces.2.2⟩
    · cases hr

/-- The next P picture refers to the one that was returned. -/
theorem advanced_inv (hsmall : s.idrPicId < 2 ^ 16) (surfaces : Surfaces) (hs : s.session = some surfaces) (idr : Bool)
    (index : ℕ) (hzero : idr = true → index = 0) :
    Inv (s.advanced (s.accessUnit surfaces idr index) index) (some (s.accessUnit surfaces idr index)) where
  reference := by
    intro surfaces' hs' _
    obtain rfl : surfaces = surfaces' := Option.some.inj (hs.symm.trans hs')
    refine ⟨_, rfl, ?_, rfl, index, rfl, rfl, rfl⟩
    have hflip : (s.advanced (s.accessUnit surfaces idr index) index).reference surfaces = s.reconstructed surfaces := by
      unfold reference reconstructed advanced
      cases s.recon <;> rfl
    rw [hflip]
    rfl
  idrPicId := by
    intro a ha hidr
    obtain rfl := Option.some.inj ha
    have hset : idr = true := hidr
    refine .inl ⟨by simp [advanced, hzero hset], ?_⟩
    simp [advanced, accessUnit, hset]
  small := by
    unfold advanced accessUnit
    dsimp only
    split_ifs
    · exact Nat.mod_lt _ (by decide)
    · exact hsmall

theorem accessUnit_next (h : Inv s last) {surfaces : Surfaces} (hs : s.session = some surfaces) {idr : Bool} {index : ℕ}
    (hp : idr = false → s.forceIdr = false ∧ index = s.framesSinceIdr) : Next last (s.accessUnit surfaces idr index) := by
  have hpredicted : idr = false → ∃ a, last = some a ∧ some a.current = (s.accessUnit surfaces idr index).reference ∧
      index % 2 ^ log2MaxFrameNum = (a.frameNum + 1) % 2 ^ log2MaxFrameNum ∧ 2 * index = a.current.orderCount + 2 := by
    intro hidr
    obtain ⟨hforce, rfl⟩ := hp hidr
    obtain ⟨a, ha, hcurrent, hnum, index, hindex, hprevious, hpoc⟩ := h.reference surfaces hs hforce
    refine ⟨a, ha, ?_, ?_, ?_⟩
    · rw [hcurrent]
      simp [accessUnit, hidr]
    · rw [hnum, hprevious, hindex, Nat.mod_add_mod]
    · rw [hcurrent, hindex]
      dsimp only
      omega
  constructor
  · intro hnone
    by_contra hidr
    obtain ⟨a, ha, -⟩ := hpredicted (Bool.eq_false_iff.mpr hidr)
    rw [hnone] at ha
    cases ha
  · intro b hb
    refine ⟨fun hidr => ?_, fun hb' hidr => ?_⟩
    · obtain ⟨a, ha, href, hnum, hpoc⟩ := hpredicted hidr
      obtain rfl := Option.some.inj (hb.symm.trans ha)
      exact ⟨href.symm, hnum, hpoc⟩
    · have hset : idr = true := hidr
      have hid : (s.accessUnit surfaces idr index).idrPicId = (s.idrPicId + 1) % 2 ^ 16 := if_pos hset
      have hlt := h.small
      rw [hid]
      rcases h.idrPicId b hb hb' with ⟨-, hsame⟩ | ⟨hover, hother⟩
      · omega
      · rw [hover]
        exact hother

theorem encodeOrForce_steps (h : Inv s last) {surfaces : Surfaces} (hs : s.session = some surfaces) (forced : Bool)
    (driver : PictureCall → Option Error) :
    Steps last ((s.encodeOrForce surfaces forced driver).1.toOption, (s.encodeOrForce surfaces forced driver).2) := by
  unfold encodeOrForce encodeInput
  dsimp only
  cases (s.pictureCalls (s.idr forced)).findSome? driver with
  | some e => exact .keep h.force
  | none =>
    have hzero : s.idr forced = true → (if s.idr forced = true then 0 else s.framesSinceIdr) = 0 := fun hidr => if_pos hidr
    refine ⟨fun hnone => (by cases hnone), fun a ha => ?_⟩
    obtain rfl := Option.some.inj ha
    refine ⟨advanced_inv h.small surfaces hs _ _ hzero, accessUnit_sound s surfaces _ _ hzero, accessUnit_next h hs ?_⟩
    intro hidr
    refine ⟨?_, if_neg (by simp [hidr])⟩
    unfold idr at hidr
    simp only [Bool.or_eq_false_iff] at hidr
    exact hidr.1.1.1

/-! ### Runs -/

theorem call_steps (h : Inv s last) {what : Call} (hnot : ¬ s.Repeats what) : Steps last (s.call what) := by
  cases what with
  | configure config driver => exact .keep (configure_inv h hnot)
  | setRateControl rate driver => exact .keep (setRateControl_inv h hnot)
  | requestIdr => exact .keep h.force
  | encode forced upload driver =>
    unfold call encode
    dsimp only
    split
    · exact .keep h
    · exact .keep h.force
    · next surfaces hs => exact encodeOrForce_steps h hs forced driver
  | encodeDmabuf forced convert driver =>
    unfold call encodeDmabuf
    dsimp only
    split
    · exact .keep h
    · exact .keep h
    · next surfaces hs => exact encodeOrForce_steps h hs forced driver

/-- **The stream of a run** goes on from the access unit returned last. -/
theorem stream_spec : ∀ {calls : List Call} {s : Impl} {last : Option AccessUnit}, Inv s last → s.Spared calls →
    (∀ a ∈ s.stream calls, a.Sound) ∧ (last = none → ∀ a ∈ (s.stream calls).head?, a.idr = true) ∧
      (last.toList ++ s.stream calls).IsChain Follows
  | [], _, last, _, _ => by
    refine ⟨by simp [stream], by simp [stream], ?_⟩
    cases last <;> simp [stream]
  | what :: calls, s, last, h, hspared => by
    have hsteps := call_steps h hspared.1
    rw [stream]
    cases hdone : (s.call what).1 with
    | none => exact stream_spec (hsteps.kept hdone) hspared.2
    | some a =>
      obtain ⟨hinv, hsound, hnext⟩ := hsteps.returned a hdone
      obtain ⟨hall, -, hchain⟩ := stream_spec hinv hspared.2
      refine ⟨?_, ?_, ?_⟩
      · intro b hb
        rcases List.mem_cons.mp hb with rfl | hb
        · exact hsound
        · exact hall b hb
      · intro hnone b hb
        obtain rfl := Option.some.inj hb
        exact hnext.first hnone
      · cases last with
        | none => exact hchain
        | some b => exact .cons_cons (hnext.follows b rfl) hchain

/-- **The stream stays decodable** in every run of a new encoder, whatever fails
on the way, unless a session is opened right behind the first IDR picture of
the session before. -/
theorem run_decodable (calls : List Call) (h : Spared {} calls) : Decodable (Impl.stream {} calls) := by
  obtain ⟨hsound, hfirst, hchain⟩ := stream_spec inv_fresh h
  exact ⟨hfirst rfl, hsound, hchain⟩

/-! ### Another rate control mode -/

/-- A driver that has all modes and answers every call. -/
def willing : OpenDriver := ⟨.ok (rcCbr ||| rcVbr ||| rcCqp, {}), .ok ⟨0, 1, 2, by decide⟩, none⟩

def small : EncoderConfig := { width := 16, height := 16 }

def capped : RateControl := { maxBitrateKbps := 1000 }

/-- **Another mode behind the first IDR picture repeats its number.** -/
theorem reopened_twice : ¬ Decodable (Impl.stream {}
    [.configure small willing, .encode false none fun _ => none, .setRateControl capped willing,
      .encode false none fun _ => none]) := by
  intro h
  exact (List.isChain_cons_cons.mp h.follows).1.idrPicId rfl rfl rfl

/-- Behind a P picture the mode may change, also if a picture failed before. -/
theorem run_decodable_small : Decodable (Impl.stream {}
    [.configure small willing, .encode false none fun _ => none, .encode false none fun what =>
      if what = .finish then some ⟨.io, "unusable access unit", 0⟩ else none, .encode false none fun _ => none,
      .encode false none fun _ => none, .setRateControl capped willing, .encode false none fun _ => none]) :=
  run_decodable _ ⟨fun h => absurd h.2.1 (by decide), id, id, id, id, fun h => absurd h.2.2.2.1 (by decide), id, trivial⟩

end Impl
end Vaapi
end Video
end Farland
