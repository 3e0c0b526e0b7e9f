/-
# Layouts

The four ways to a layout in `server/display_layout.cpp`, under any limits, and
where the screens show on it, with the arithmetic of 32-bit and 64-bit integers.
What a layout is good for is that its monitors do not meet and fill up to the
edges of the desktop (`Sound`).

Key theorems: `row_built`, `build_spec`, `fromDisp_spec`,
`fromClientData_spec`.
-/
import Farland.Lib.Tiling
import Farland.Server.DisplayLayout

namespace Farland
namespace Server
namespace Layouts

open Nat Bool

open Channels.Rdpgfx (MonitorDef monitorPrimary)
open Channels.Disp (CapsPdu MonitorLayout)
open Proto.Gcc (ClientData MonitorAttributes)
open DisplayLayout (overlap setAttributes clientAttributes)

/-- What a layout may be. -/
structure Limits where
  maxMonitors : ℕ := 8
  minSize : ℕ := 200
  maxSize : ℕ := 8192
  areaFactorA : ℕ := 3840
  areaFactorB : ℕ := 2160
  /-- The bounding box of all monitors, in either direction. -/
  maxExtent : ℕ := 16384
  deriving DecidableEq

def Limits.maxArea (limits : Limits) : ℕ := limits.maxMonitors * limits.areaFactorA * limits.areaFactorB % 2 ^ 64

/-- What the client is told of them. -/
def Limits.caps (limits : Limits) : CapsPdu := ⟨limits.maxMonitors, limits.areaFactorA, limits.areaFactorB⟩

/-- A layout of `server/display_layout.hpp`. -/
structure Layout where
  monitors : List DisplayMonitor := []
  width : ℕ := 0
  height : ℕ := 0
  deriving DecidableEq

/-- A sum of 32-bit integers. -/
def sum32 (a b : ℕ) : ℕ := (a + b) % 2 ^ 32

/-! ### One monitor, or several in a row -/

/-- One primary monitor. -/
def single (width height : ℕ) (attributes : MonitorAttributes := noAttributes) : Layout where
  monitors := [{ rect := ⟨0, 0, width, height⟩, primary := true, attributes }]
  width := width
  height := height

/-- The loop of `row`: it stops before a monitor that would break the limits. -/
def rowFrom (limits : Limits) : Layout → List (ℕ × ℕ) → Layout
  | layout, [] => layout
  | layout, (w, h) :: sizes =>
    let width := clamp 1 limits.maxExtent w
    let height := clamp 1 limits.maxExtent h
    if layout.monitors ≠ [] ∧
        (layout.monitors.length ≥ limits.maxMonitors ∨ sum32 layout.width width > limits.maxExtent) then layout
    else
      rowFrom limits
        { monitors := layout.monitors ++
            [{ rect := ⟨layout.width, 0, width, height⟩, primary := layout.monitors == [] }]
          width := sum32 layout.width width
          height := max layout.height height } sizes

/-- Monitors of the given sizes side by side, the first primary. -/
def row (sizes : List (ℕ × ℕ)) (limits : Limits) : Layout :=
  let layout := rowFrom limits {} sizes
  if layout.monitors = [] then single 1 1 else layout

/-! ### The monitors of a client -/

/-- A monitor before its place is known. -/
structure Candidate where
  left : ℤ
  top : ℤ
  monitor : DisplayMonitor
  deriving DecidableEq

variable {limits : Limits} {cs : List Candidate} {layout : Layout}

namespace Candidate

variable (c : Candidate)

def width : ℕ := c.monitor.rect.width
def height : ℕ := c.monitor.rect.height
def right : ℤ := c.left + c.width
def bottom : ℤ := c.top + c.height

/-- The monitor in a desktop whose corner is `(minX, minY)`. -/
def placed (minX minY : ℤ) (c : Candidate) : DisplayMonitor :=
  { c.monitor with rect := ⟨toUnsigned 32 (c.left - minX), toUnsigned 32 (c.top - minY), c.width, c.height⟩ }

def makePrimary : Candidate := { c with monitor := { c.monitor with primary := true } }

end Candidate

/-- Makes the first candidate that `p` holds of the primary monitor. -/
def makePrimary (p : Candidate → Bool) : List Candidate → List Candidate
  | [] => []
  | c :: cs => if p c then c.makePrimary :: cs else c :: makePrimary p cs

variable (candidates : List Candidate)

def primaries : ℕ := (candidates.filter fun c => c.monitor.primary).length

/-- Without a primary monitor it is the one at the origin, or else the first. -/
def withPrimary : List Candidate :=
  let origin : Candidate → Bool := fun c => c.left == 0 && c.top == 0
  if primaries candidates ≠ 0 then candidates
  else if candidates.any origin then makePrimary origin candidates
  else makePrimary (fun _ => true) candidates

def minX : ℤ := (candidates.map Candidate.left).foldl min (2 ^ 63 - 1)
def minY : ℤ := (candidates.map Candidate.top).foldl min (2 ^ 63 - 1)
def maxX : ℤ := (candidates.map Candidate.right).foldl max (-2 ^ 63)
def maxY : ℤ := (candidates.map Candidate.bottom).foldl max (-2 ^ 63)

def candidatesArea : ℕ :=
  (candidates.map fun c => c.width * c.height).sum % 2 ^ 64

/-- The monitors one after the other, each in its place. -/
def placeAll (minX minY : ℤ) : Layout → List Candidate → Result Layout
  | layout, [] => .ok layout
  | layout, c :: cs =>
    let m := c.placed minX minY
    if layout.monitors.any fun other => overlap other.rect m.rect then fail .invalidValue "monitors overlap"
    else placeAll minX minY { layout with monitors := layout.monitors ++ [m] } cs

def build (limits : Limits) : Result Layout :=
  if candidates = [] then fail .invalidValue "a layout without monitors"
  else if candidates.length > min limits.maxMonitors Channels.Disp.maxMonitors then
    fail .limitExceeded "more monitors than the server takes"
  else if primaries candidates > 1 then fail .invalidValue "more than one primary monitor"
  else
    let candidates := withPrimary candidates
    let minX := minX candidates
    let minY := minY candidates
    let maxX := maxX candidates
    let maxY := maxY candidates
    if maxX - minX > limits.maxExtent ∨ maxY - minY > limits.maxExtent then
      fail .limitExceeded "the monitors span too large a desktop"
    else if candidatesArea candidates > limits.maxArea then
      fail .limitExceeded "the monitors' total area is too large"
    else
      placeAll minX minY { width := toUnsigned 32 (maxX - minX), height := toUnsigned 32 (maxY - minY) } candidates

def SizeOk (limits : Limits) (size : ℤ) : Prop := (limits.minSize : ℤ) ≤ size ∧ size ≤ limits.maxSize

instance (limits : Limits) (size : ℤ) : Decidable (SizeOk limits size) := inferInstanceAs (Decidable (_ ∧ _))

def dispCandidates (limits : Limits) : List MonitorLayout → Result (List Candidate)
  | [] => .ok []
  | m :: ms =>
    if ¬ SizeOk limits m.width ∨ ¬ SizeOk limits m.height then fail .invalidValue "a monitor size is out of range"
    else if m.width % 2 ≠ 0 then fail .invalidValue "a monitor width is odd"
    else do
      let rest ← dispCandidates limits ms
      pure (⟨m.left, m.top, ⟨⟨0, 0, m.width, m.height⟩, m.primary, setAttributes m.attributes⟩⟩ :: rest)

/-- A Display Control layout. -/
def fromDisp (monitors : List MonitorLayout) (limits : Limits) : Result Layout := do
  let candidates ← dispCandidates limits monitors
  build candidates limits

/-- The coordinates of CS_MONITOR are inclusive; `none` when a size is out of
range. -/
def clientCandidates (limits : Limits) : List (Proto.Gcc.MonitorDef × MonitorAttributes) → Option (List Candidate)
  | [] => some []
  | (m, attributes) :: ms =>
    let w := m.right - m.left + 1
    let h := m.bottom - m.top + 1
    if ¬ SizeOk limits w ∨ ¬ SizeOk limits h then none
    else do
      let rest ← clientCandidates limits ms
      pure (⟨m.left, m.top, ⟨⟨0, 0, toUnsigned 32 w, toUnsigned 32 h⟩, m.flags &&& monitorPrimary != 0,
        attributes⟩⟩ :: rest)

/-- One monitor of the client's desktop size, with the attributes of CS_CORE. -/
def desktop (data : ClientData) (width height : ℕ) (limits : Limits) : Layout :=
  single (clamp 1 limits.maxSize width) (clamp 1 limits.maxSize height)
    (setAttributes
      { physicalWidth := data.core.desktopPhysicalWidth.getD 0
        physicalHeight := data.core.desktopPhysicalHeight.getD 0
        orientation := data.core.desktopOrientation.getD 0
        desktopScaleFactor := data.core.desktopScaleFactor.getD 0
        deviceScaleFactor := data.core.deviceScaleFactor.getD 0 })

/-- The client's monitors from CS_MONITOR, or one of its desktop size. -/
def fromClientData (data : ClientData) (width height : ℕ) (limits : Limits) : Layout :=
  match data.monitor with
  | none => desktop data width height limits
  | some monitor =>
    if monitor.monitors = [] then desktop data width height limits
    else
      match clientCandidates limits (monitor.monitors.zip (clientAttributes data monitor.monitors.length)) with
      | none => desktop data width height limits
      | some candidates =>
        match build candidates limits with
        | .ok layout => layout
        | .error _ => desktop data width height limits

/-! ### Letterboxes -/

/-- A side scaled down, rounded to the nearest pixel. -/
def scaled (side num den : ℕ) : ℕ := (side * num + den / 2) % 2 ^ 64 / den % 2 ^ 32

def fitted32 (monitor : PixelRect) (width height : ℕ) : ℕ × ℕ :=
  if width > monitor.width ∨ height > monitor.height then
    if monitor.width * height ≤ monitor.height * width then
      (clamp 1 monitor.width monitor.width, clamp 1 monitor.height (scaled height monitor.width width))
    else (clamp 1 monitor.width (scaled width monitor.height height), clamp 1 monitor.height monitor.height)
  else (width, height)

def letterbox32 (monitor : PixelRect) (width height : ℕ) : Letterbox :=
  let (w, h) := fitted32 monitor width height
  let p : PixelRect := ⟨sum32 monitor.x ((monitor.width - w) / 2), sum32 monitor.y ((monitor.height - h) / 2), w, h⟩
  let right := sum32 monitor.x monitor.width
  let bottom := sum32 monitor.y monitor.height
  { picture := p
    bars :=
      bar (p.y > monitor.y) ⟨monitor.x, monitor.y, monitor.width, p.y - monitor.y⟩ ++
        bar (sum32 p.y p.height < bottom)
          ⟨monitor.x, sum32 p.y p.height, monitor.width, bottom - sum32 p.y p.height⟩ ++
        bar (p.x > monitor.x) ⟨monitor.x, p.y, p.x - monitor.x, p.height⟩ ++
        bar (sum32 p.x p.width < right) ⟨sum32 p.x p.width, p.y, right - sum32 p.x p.width, p.height⟩ }

/-! ### Placing screens -/

def monitorDef (m : DisplayMonitor) : MonitorDef where
  left := toSigned 32 m.rect.x
  top := toSigned 32 m.rect.y
  right := toSigned 32 (sum32 (m.rect.x + m.rect.width) (2 ^ 32 - 1))
  bottom := toSigned 32 (sum32 (m.rect.y + m.rect.height) (2 ^ 32 - 1))
  flags := if m.primary then monitorPrimary else 0

namespace Layout

def rectOf (layout : Layout) (index : ℕ) : PixelRect :=
  (layout.monitors.getD index { rect := ⟨0, 0, 0, 0⟩ }).rect

/-- Left to right, then top to bottom. -/
def before (layout : Layout) (a b : ℕ) : Bool :=
  (layout.rectOf a).x < (layout.rectOf b).x ||
    (layout.rectOf a).x == (layout.rectOf b).x && (layout.rectOf a).y ≤ (layout.rectOf b).y

/-- The monitor each of `screens` screens shows on: a single screen on the
primary monitor, several from left to right. -/
def screenMonitors (layout : Layout) (screens : ℕ) : List ℕ :=
  if screens = 0 then []
  else if screens = 1 then
    [if layout.monitors.any DisplayMonitor.primary then layout.monitors.findIdx DisplayMonitor.primary else 0]
  else ((List.range layout.monitors.length).mergeSort layout.before).take screens

/-- The screens that have a picture, each on its monitor. -/
def placedScreens (layout : Layout) (sizes : List (ℕ × ℕ)) : List DisplayLayout.Placed :=
  (((layout.screenMonitors sizes.length).zip sizes).zipIdx.map fun p =>
    (⟨p.2, p.1.1, p.1.2.1, p.1.2.2⟩ : DisplayLayout.Placed)).filter fun p => p.width != 0 && p.height != 0

/-- The monitors without a picture. -/
def uncovered (layout : Layout) (sizes : List (ℕ × ℕ)) : List ℕ :=
  (List.range layout.monitors.length).filter fun i => !(layout.placedScreens sizes).any (·.monitor == i)

/-- Places screens with the given picture sizes on their monitors; a monitor
without a picture is filled. -/
def place (layout : Layout) (sizes : List (ℕ × ℕ)) : OutputLayout :=
  let placed := layout.placedScreens sizes
  let box := fun p : DisplayLayout.Placed => letterbox32 (layout.rectOf p.monitor) p.width p.height
  { width := layout.width
    height := layout.height
    monitors := layout.monitors.map monitorDef
    screens := placed.map fun p => ⟨p.screen, p.width, p.height, (box p).picture⟩
    fills := placed.flatMap (fun p => (box p).bars) ++ (layout.uncovered sizes).map layout.rectOf }

end Layout

/-! ### Pixels -/

def pixels (r : PixelRect) : Set (ℕ × ℕ) := Set.Ico r.x (r.x + r.width) ×ˢ Set.Ico r.y (r.y + r.height)

theorem mem_pixels {r : PixelRect} {p : ℕ × ℕ} :
    p ∈ pixels r ↔ (r.x ≤ p.1 ∧ p.1 < r.x + r.width) ∧ r.y ≤ p.2 ∧ p.2 < r.y + r.height := Iff.rfl

theorem pixels_finite (r : PixelRect) : (pixels r).Finite := (Set.finite_Ico _ _).prod (Set.finite_Ico _ _)

theorem pixels_ncard (r : PixelRect) : (pixels r).ncard = r.width * r.height := by
  unfold pixels
  rw [Set.ncard_prod, Set.ncard_eq_toFinset_card', Set.ncard_eq_toFinset_card', Set.toFinset_Ico, Set.toFinset_Ico,
    card_Ico, card_Ico]
  simp

/-- Side by side, or one above the other. -/
def Beside (a b : PixelRect) : Prop :=
  a.x + a.width ≤ b.x ∨ b.x + b.width ≤ a.x ∨ a.y + a.height ≤ b.y ∨ b.y + b.height ≤ a.y

theorem Beside.disjoint {a b : PixelRect} (h : Beside a b) : Disjoint (pixels a) (pixels b) := by
  apply Set.disjoint_left.mpr
  rintro ⟨px, py⟩ ha hb
  rw [mem_pixels] at ha hb
  unfold Beside at h
  dsimp only at ha hb
  omega

/-- Two rectangles that the code does not take for overlapping. -/
theorem beside_of_not_overlap {a b : PixelRect} (h : overlap a b = false) : Beside a b := by
  simp only [overlap, and_eq_false_iff, decide_eq_false_iff_not] at h
  unfold Beside
  omega

/-! ### What a layout is good for -/

/-- The monitors reach from the left and upper edges to the right and lower. -/
structure Bounds (layout : Layout) : Prop where
  right_le : ∀ m ∈ layout.monitors, m.rect.x + m.rect.width ≤ layout.width
  bottom_le : ∀ m ∈ layout.monitors, m.rect.y + m.rect.height ≤ layout.height
  left : ∃ m ∈ layout.monitors, m.rect.x = 0
  top : ∃ m ∈ layout.monitors, m.rect.y = 0
  right : ∃ m ∈ layout.monitors, m.rect.x + m.rect.width = layout.width
  bottom : ∃ m ∈ layout.monitors, m.rect.y + m.rect.height = layout.height

/-- **Sound** layouts: the monitors do not meet, their bounding box is the
desktop, and exactly one is primary. -/
structure Sound (layout : Layout) : Prop where
  apart : (layout.monitors.map fun m => pixels m.rect).Pairwise Disjoint
  bounds : Bounds layout
  primary : (layout.monitors.filter DisplayMonitor.primary).length = 1
  width_lt : layout.width < 2 ^ 32
  height_lt : layout.height < 2 ^ 32

/-- Every monitor has pixels. -/
def NoneEmpty (layout : Layout) : Prop := ∀ m ∈ layout.monitors, 0 < m.rect.width ∧ 0 < m.rect.height

def area (layout : Layout) : ℕ := (layout.monitors.map fun m => m.rect.width * m.rect.height).sum

structure WithinLimits (limits : Limits) (layout : Layout) : Prop where
  few : layout.monitors.length ≤ limits.maxMonitors
  width_le : layout.width ≤ limits.maxExtent
  height_le : layout.height ≤ limits.maxExtent
  area_le : area layout ≤ limits.maxArea

/-- Monitors that do not meet cover no more than the desktop. -/
theorem Sound.area_le (h : Sound layout) : area layout ≤ layout.width * layout.height := by
  have hsub : ∀ p ∈ layout.monitors.map (fun m => pixels m.rect), p ⊆ pixels ⟨0, 0, layout.width, layout.height⟩ := by
    intro p hp
    obtain ⟨m, hm, rfl⟩ := List.mem_map.mp hp
    have hright := h.bounds.right_le m hm
    have hbottom := h.bounds.bottom_le m hm
    rintro ⟨px, py⟩ hpx
    rw [mem_pixels] at hpx ⊢
    dsimp only at hpx ⊢
    omega
  have hsum := Tiling.sum_ncard_le (pixels_finite _) h.apart hsub
  rw [pixels_ncard, List.map_map] at hsum
  have hmap : (Set.ncard ∘ fun m : DisplayMonitor => pixels m.rect) = fun m => m.rect.width * m.rect.height :=
    funext fun m => pixels_ncard m.rect
  rw [hmap] at hsum
  exact hsum

/-! ### One monitor, or several in a row: sound -/

theorem single_sound {width height : ℕ} (hwidth : width < 2 ^ 32) (hheight : height < 2 ^ 32)
    (attributes : MonitorAttributes) : Sound (single width height attributes) where
  apart := List.pairwise_singleton _ _
  bounds :=
    { right_le := by simp [single]
      bottom_le := by simp [single]
      left := by simp [single]
      top := by simp [single]
      right := by simp [single]
      bottom := by simp [single] }
  primary := rfl
  width_lt := hwidth
  height_lt := hheight

/-- What the loop of `row` has built, unless it is at its start. -/
structure RowBuilt (limits : Limits) (layout : Layout) : Prop where
  sound : Sound layout
  noneEmpty : NoneEmpty layout
  few : layout.monitors.length ≤ max 1 limits.maxMonitors
  width_le : layout.width ≤ limits.maxExtent
  height_le : layout.height ≤ limits.maxExtent

/-- One more monitor at the right. -/
theorem RowBuilt.push (h : RowBuilt limits layout) {width height : ℕ}
    (hfew : layout.monitors.length < limits.maxMonitors) (hsome : layout.monitors ≠ [])
    (hwidth : 0 < width) (hheight : 0 < height) (hextent : limits.maxExtent < 2 ^ 31)
    (hwide : layout.width + width ≤ limits.maxExtent) (hhigh : height ≤ limits.maxExtent) :
    RowBuilt limits
      { monitors := layout.monitors ++
          [{ rect := ⟨layout.width, 0, width, height⟩, primary := layout.monitors == [] }]
        width := layout.width + width
        height := max layout.height height } := by
  have hprimary : (layout.monitors == []) = false := by simpa using hsome
  rw [hprimary]
  have hbounds := h.sound.bounds
  have hheights := h.height_le
  have hapart : ∀ m ∈ layout.monitors, Disjoint (pixels m.rect) (pixels ⟨layout.width, 0, width, height⟩) :=
    fun m hm => Beside.disjoint (Or.inl (hbounds.right_le m hm))
  obtain ⟨first, hfirst, hleft⟩ := hbounds.left
  obtain ⟨upper, hupper, htop⟩ := hbounds.top
  obtain ⟨lowest, hlowest, hbottom⟩ := hbounds.bottom
  refine ⟨⟨?_, ?_, ?_, ?_, ?_⟩, ?_, ?_, hwide, max_le hheights hhigh⟩
  · rw [List.map_append]
    refine List.pairwise_append.mpr ⟨h.sound.apart, List.pairwise_singleton _ _, ?_⟩
    intro a ha b hb
    obtain ⟨m, hm, rfl⟩ := List.mem_map.mp ha
    obtain rfl := List.mem_singleton.mp hb
    exact hapart m hm
  · refine ⟨?_, ?_, ⟨first, List.mem_append_left _ hfirst, hleft⟩, ⟨upper, List.mem_append_left _ hupper, htop⟩,
      ⟨_, List.mem_append_right _ (List.mem_singleton_self _), rfl⟩, ?_⟩
    · intro m hm
      rcases List.mem_append.mp hm with hm | hm
      · exact (hbounds.right_le m hm).trans (Nat.le_add_right _ _)
      · obtain rfl := List.mem_singleton.mp hm
        exact le_rfl
    · intro m hm
      rcases List.mem_append.mp hm with hm | hm
      · exact (hbounds.bottom_le m hm).trans (le_max_left _ _)
      · obtain rfl := List.mem_singleton.mp hm
        exact (Nat.zero_add height).le.trans (le_max_right _ _)
    · -- the lowest edge is the old one or that of the new monitor
      rcases le_total height layout.height with hle | hle
      · exact ⟨lowest, List.mem_append_left _ hlowest, by rw [hbottom, max_eq_left hle]⟩
      · exact ⟨_, List.mem_append_right _ (List.mem_singleton_self _), by rw [max_eq_right hle, Nat.zero_add]⟩
  · rw [List.filter_append, List.length_append, h.sound.primary]
    rfl
  · exact lt_of_le_of_lt hwide (hextent.trans (by decide))
  · exact lt_of_le_of_lt (max_le hheights hhigh) (hextent.trans (by decide))
  · intro m hm
    rcases List.mem_append.mp hm with hm | hm
    · exact h.noneEmpty m hm
    · obtain rfl := List.mem_singleton.mp hm
      exact ⟨hwidth, hheight⟩
  · rw [List.length_append, List.length_singleton]
    exact le_max_of_le_right hfew

theorem rowFrom_built (hextent : 1 ≤ limits.maxExtent ∧ limits.maxExtent < 2 ^ 31) :
    ∀ (sizes : List (ℕ × ℕ)) {layout : Layout}, RowBuilt limits layout → RowBuilt limits (rowFrom limits layout sizes)
  | [], _, h => h
  | (w, h) :: sizes, layout, hbuilt => by
    have hwidth := DisplayLayout.le_clamp 1 limits.maxExtent w
    have hheight := DisplayLayout.le_clamp 1 limits.maxExtent h
    have hwide := DisplayLayout.clamp_le hextent.1 w
    have hhigh := DisplayLayout.clamp_le hextent.1 h
    have hsum : sum32 layout.width (clamp 1 limits.maxExtent w) = layout.width + clamp 1 limits.maxExtent w := by
      have hless := hbuilt.width_le
      exact mod_eq_of_lt (by omega)
    rw [rowFrom]
    rw [hsum]
    by_cases hstop : layout.monitors ≠ [] ∧ (layout.monitors.length ≥ limits.maxMonitors ∨
        layout.width + clamp 1 limits.maxExtent w > limits.maxExtent)
    · rw [if_pos hstop]
      exact hbuilt
    · rw [if_neg hstop]
      have hsome : layout.monitors ≠ [] := fun hnil => by
        have hprimary := hbuilt.sound.primary
        rw [hnil] at hprimary
        cases hprimary
      have hroom := (not_and.mp hstop) hsome
      push Not at hroom
      exact rowFrom_built hextent sizes (hbuilt.push hroom.1 hsome hwidth hheight hextent.2 hroom.2 hhigh)

theorem single_built {width height : ℕ} (hwidth : 0 < width ∧ width ≤ limits.maxExtent)
    (hheight : 0 < height ∧ height ≤ limits.maxExtent) (hextent : limits.maxExtent < 2 ^ 32) :
    RowBuilt limits (single width height) where
  sound := single_sound (hwidth.2.trans_lt hextent) (hheight.2.trans_lt hextent) _
  noneEmpty := by
    intro m hm
    obtain rfl := List.mem_singleton.mp hm
    exact ⟨hwidth.1, hheight.1⟩
  few := le_max_left _ _
  width_le := hwidth.2
  height_le := hheight.2

/-- **A row** is sound, and keeps to the number of monitors and the extent. -/
theorem row_built (hextent : 1 ≤ limits.maxExtent ∧ limits.maxExtent < 2 ^ 31)
    (sizes : List (ℕ × ℕ)) : RowBuilt limits (row sizes limits) := by
  have hlt : limits.maxExtent < 2 ^ 32 := hextent.2.trans (by decide)
  cases sizes with
  | nil => exact single_built ⟨by decide, hextent.1⟩ ⟨by decide, hextent.1⟩ hlt
  | cons size sizes =>
    obtain ⟨w, h⟩ := size
    have hwidth := DisplayLayout.le_clamp 1 limits.maxExtent w
    have hheight := DisplayLayout.le_clamp 1 limits.maxExtent h
    have hwide := DisplayLayout.clamp_le hextent.1 w
    have hhigh := DisplayLayout.clamp_le hextent.1 h
    have hfirst : rowFrom limits {} ((w, h) :: sizes) =
        rowFrom limits (single (clamp 1 limits.maxExtent w) (clamp 1 limits.maxExtent h)) sizes := by
      have hsum : sum32 0 (clamp 1 limits.maxExtent w) = clamp 1 limits.maxExtent w := by
        rw [sum32, Nat.zero_add]
        exact mod_eq_of_lt (by omega)
      rw [rowFrom]
      dsimp only
      rw [if_neg (by simp), hsum]
      simp [single]
    have hbuilt := rowFrom_built hextent sizes (single_built ⟨hwidth, hwide⟩ ⟨hheight, hhigh⟩ hlt)
    rw [← hfirst] at hbuilt
    unfold row
    dsimp only
    rw [if_neg]
    · exact hbuilt
    · intro hnil
      have hprimary := hbuilt.sound.primary
      rw [hnil] at hprimary
      cases hprimary

/-! ### The primary monitor -/

theorem mem_makePrimary {p : Candidate → Bool} {c : Candidate} : ∀ {cs : List Candidate}, c ∈ makePrimary p cs →
    c ∈ cs ∨ ∃ c' ∈ cs, c = c'.makePrimary
  | c' :: cs, h => by
    rw [makePrimary] at h
    by_cases hp : p c' = true
    · rw [if_pos hp] at h
      rcases List.mem_cons.mp h with rfl | h
      · exact Or.inr ⟨c', List.mem_cons_self, rfl⟩
      · exact Or.inl (List.mem_cons_of_mem _ h)
    · rw [if_neg hp] at h
      rcases List.mem_cons.mp h with rfl | h
      · exact Or.inl List.mem_cons_self
      · rcases mem_makePrimary h with h | ⟨c'', h, heq⟩
        · exact Or.inl (List.mem_cons_of_mem _ h)
        · exact Or.inr ⟨c'', List.mem_cons_of_mem _ h, heq⟩

theorem mem_withPrimary {c : Candidate} (h : c ∈ withPrimary cs) :
    c ∈ cs ∨ ∃ c' ∈ cs, c = c'.makePrimary := by
  unfold withPrimary at h
  dsimp only at h
  split_ifs at h
  · exact Or.inl h
  · exact mem_makePrimary h
  · exact mem_makePrimary h

theorem primaries_cons (c : Candidate) (cs : List Candidate) :
    primaries (c :: cs) = (if c.monitor.primary then 1 else 0) + primaries cs := by
  unfold primaries
  rw [List.filter_cons]
  split_ifs
  · rw [List.length_cons, Nat.add_comm]
  · rw [Nat.zero_add]

theorem primaries_makePrimary {p : Candidate → Bool} : ∀ {cs : List Candidate}, primaries cs = 0 → cs.any p = true →
    primaries (makePrimary p cs) = 1
  | c :: cs, hnone, hany => by
    rw [primaries_cons] at hnone
    have hprimary : c.monitor.primary = false := by
      by_contra hprimary
      rw [not_eq_false] at hprimary
      rw [if_pos hprimary] at hnone
      omega
    have hrest : primaries cs = 0 := by omega
    rw [makePrimary]
    by_cases hp : p c = true
    · rw [if_pos hp, primaries_cons, hrest]
      rfl
    · rw [List.any_cons] at hany
      have htail := primaries_makePrimary hrest (by simpa [hp] using hany)
      rw [if_neg hp, primaries_cons, htail, hprimary]
      rfl

/-- Exactly one monitor is primary in the end. -/
theorem primaries_withPrimary (hsome : cs ≠ []) (hfew : primaries cs ≤ 1) :
    primaries (withPrimary cs) = 1 := by
  unfold withPrimary
  dsimp only
  split_ifs with hprimary horigin
  · omega
  · exact primaries_makePrimary (not_not.mp hprimary) horigin
  · apply primaries_makePrimary (not_not.mp hprimary)
    obtain ⟨c, hc⟩ := List.exists_mem_of_ne_nil _ hsome
    exact List.any_eq_true.mpr ⟨c, hc, rfl⟩

theorem makePrimary_length (p : Candidate → Bool) : ∀ cs : List Candidate, (makePrimary p cs).length = cs.length
  | [] => rfl
  | c :: cs => by
    rw [makePrimary]
    split_ifs
    · rfl
    · rw [List.length_cons, List.length_cons, makePrimary_length p cs]

theorem withPrimary_length (cs : List Candidate) : (withPrimary cs).length = cs.length := by
  unfold withPrimary
  dsimp only
  split_ifs
  · rfl
  all_goals exact makePrimary_length _ cs

/-! ### The bounding box -/

theorem foldl_min_mem : ∀ {l : List ℤ} {a : ℤ}, l.foldl min a = a ∨ l.foldl min a ∈ l
  | [], a => Or.inl rfl
  | x :: l, a => by
    rw [List.foldl_cons]
    rcases foldl_min_mem (l := l) (a := min a x) with h | h
    · rcases min_choice a x with hx | hx
      · exact Or.inl (h.trans hx)
      · rw [h, hx]
        exact Or.inr List.mem_cons_self
    · exact Or.inr (List.mem_cons_of_mem _ h)

theorem foldl_max_mem : ∀ {l : List ℤ} {a : ℤ}, l.foldl max a = a ∨ l.foldl max a ∈ l
  | [], a => Or.inl rfl
  | x :: l, a => by
    rw [List.foldl_cons]
    rcases foldl_max_mem (l := l) (a := max a x) with h | h
    · rcases max_choice a x with hx | hx
      · exact Or.inl (h.trans hx)
      · rw [h, hx]
        exact Or.inr List.mem_cons_self
    · exact Or.inr (List.mem_cons_of_mem _ h)

theorem foldl_min_le : ∀ {l : List ℤ} {a : ℤ}, l.foldl min a ≤ a ∧ ∀ x ∈ l, l.foldl min a ≤ x
  | [], a => ⟨le_rfl, by simp⟩
  | y :: l, a => by
    obtain ⟨ha, hl⟩ := foldl_min_le (l := l) (a := min a y)
    refine ⟨ha.trans (min_le_left _ _), fun x hx => ?_⟩
    rcases List.mem_cons.mp hx with rfl | hx
    · exact ha.trans (min_le_right _ _)
    · exact hl x hx

theorem le_foldl_max : ∀ {l : List ℤ} {a : ℤ}, a ≤ l.foldl max a ∧ ∀ x ∈ l, x ≤ l.foldl max a
  | [], a => ⟨le_rfl, by simp⟩
  | y :: l, a => by
    obtain ⟨ha, hl⟩ := le_foldl_max (l := l) (a := max a y)
    refine ⟨(le_max_left _ _).trans ha, fun x hx => ?_⟩
    rcases List.mem_cons.mp hx with rfl | hx
    · exact (le_max_right _ _).trans ha
    · exact hl x hx

/-- The smallest of some values that fit 64 bits. -/
theorem least {f : Candidate → ℤ} (hsome : cs ≠ []) (hf : ∀ c ∈ cs, f c ≤ 2 ^ 63 - 1) :
    (∀ c ∈ cs, (cs.map f).foldl min (2 ^ 63 - 1) ≤ f c) ∧ ∃ c ∈ cs, f c = (cs.map f).foldl min (2 ^ 63 - 1) := by
  have hle : ∀ c ∈ cs, (cs.map f).foldl min (2 ^ 63 - 1) ≤ f c :=
    fun c hc => foldl_min_le.2 _ (List.mem_map_of_mem hc)
  refine ⟨hle, ?_⟩
  rcases foldl_min_mem (l := cs.map f) (a := 2 ^ 63 - 1) with h | h
  · obtain ⟨c, hc⟩ := List.exists_mem_of_ne_nil _ hsome
    have hleast := hle c hc
    rw [h] at hleast ⊢
    exact ⟨c, hc, le_antisymm (hf c hc) hleast⟩
  · obtain ⟨c, hc, heq⟩ := List.mem_map.mp h
    exact ⟨c, hc, heq⟩

theorem greatest {f : Candidate → ℤ} (hsome : cs ≠ []) (hf : ∀ c ∈ cs, -2 ^ 63 ≤ f c) :
    (∀ c ∈ cs, f c ≤ (cs.map f).foldl max (-2 ^ 63)) ∧ ∃ c ∈ cs, f c = (cs.map f).foldl max (-2 ^ 63) := by
  have hle : ∀ c ∈ cs, f c ≤ (cs.map f).foldl max (-2 ^ 63) :=
    fun c hc => le_foldl_max.2 _ (List.mem_map_of_mem hc)
  refine ⟨hle, ?_⟩
  rcases foldl_max_mem (l := cs.map f) (a := -2 ^ 63) with h | h
  · obtain ⟨c, hc⟩ := List.exists_mem_of_ne_nil _ hsome
    have hgreatest := hle c hc
    rw [h] at hgreatest ⊢
    exact ⟨c, hc, le_antisymm hgreatest (hf c hc)⟩
  · obtain ⟨c, hc, heq⟩ := List.mem_map.mp h
    exact ⟨c, hc, heq⟩

/-! ### Building -/

/-- The monitors are added in order, and none overlaps one before it. -/
theorem placeAll_ok {minX minY : ℤ} : ∀ {cs : List Candidate} {layout layout' : Layout},
    placeAll minX minY layout cs = .ok layout' →
    (layout.monitors.map fun m => pixels m.rect).Pairwise Disjoint →
    layout' = { layout with monitors := layout.monitors ++ cs.map (Candidate.placed minX minY) } ∧
      (layout'.monitors.map fun m => pixels m.rect).Pairwise Disjoint
  | [], layout, layout', h, hapart => by
    cases h
    exact ⟨by simp, hapart⟩
  | c :: cs, layout, layout', h, hapart => by
    rw [placeAll] at h
    by_cases hoverlap : (layout.monitors.any fun other => overlap other.rect (c.placed minX minY).rect) = true
    · rw [if_pos hoverlap] at h
      cases h
    · rw [if_neg hoverlap] at h
      have hnext : ((layout.monitors ++ [c.placed minX minY]).map fun m => pixels m.rect).Pairwise Disjoint := by
        rw [List.map_append]
        refine List.pairwise_append.mpr ⟨hapart, List.pairwise_singleton _ _, ?_⟩
        intro a ha b hb
        obtain ⟨m, hm, rfl⟩ := List.mem_map.mp ha
        obtain rfl := List.mem_singleton.mp hb
        apply (beside_of_not_overlap _).disjoint
        by_contra hmeet
        rw [not_eq_false] at hmeet
        exact hoverlap (List.any_eq_true.mpr ⟨m, hm, hmeet⟩)
      obtain ⟨heq, hall⟩ := placeAll_ok h hnext
      refine ⟨?_, hall⟩
      rw [heq, List.map_cons, List.append_assoc]
      rfl

/-- Coordinates as they come from the wire. -/
structure Candidate.Fits (c : Candidate) : Prop where
  left : Channels.Disp.Signed32 c.left
  top : Channels.Disp.Signed32 c.top
  width : c.width < 2 ^ 32
  height : c.height < 2 ^ 32

theorem toUnsigned_of_mem {v : ℤ} (h0 : 0 ≤ v) (hv : v < 2 ^ 32) : (toUnsigned 32 v : ℤ) = v := by
  unfold toUnsigned
  rw [Int.emod_eq_of_lt h0 hv]
  exact Int.toNat_of_nonneg h0

/-- The bounding box of candidates, and which of them reach its edges. -/
structure Box (cs : List Candidate) : Prop where
  inside : ∀ c ∈ cs, minX cs ≤ c.left ∧ minY cs ≤ c.top ∧ c.right ≤ maxX cs ∧ c.bottom ≤ maxY cs
  left : ∃ c ∈ cs, c.left = minX cs
  top : ∃ c ∈ cs, c.top = minY cs
  right : ∃ c ∈ cs, c.right = maxX cs
  bottom : ∃ c ∈ cs, c.bottom = maxY cs

theorem box_of_candidates (hsome : cs ≠ []) (hfits : ∀ c ∈ cs, c.Fits) : Box cs := by
  have hsides : ∀ c ∈ cs, c.left ≤ 2 ^ 63 - 1 ∧ c.top ≤ 2 ^ 63 - 1 ∧ -2 ^ 63 ≤ c.right ∧ -2 ^ 63 ≤ c.bottom := by
    intro c hc
    obtain ⟨⟨hl, hl'⟩, ⟨ht, ht'⟩, hw, hh⟩ := hfits c hc
    unfold Candidate.right Candidate.bottom
    omega
  obtain ⟨hminX, hleft⟩ := least (f := Candidate.left) hsome fun c hc => (hsides c hc).1
  obtain ⟨hminY, htop⟩ := least (f := Candidate.top) hsome fun c hc => (hsides c hc).2.1
  obtain ⟨hmaxX, hright⟩ := greatest (f := Candidate.right) hsome fun c hc => (hsides c hc).2.2.1
  obtain ⟨hmaxY, hbottom⟩ := greatest (f := Candidate.bottom) hsome fun c hc => (hsides c hc).2.2.2
  exact ⟨fun c hc => ⟨hminX c hc, hminY c hc, hmaxX c hc, hmaxY c hc⟩, hleft, htop, hright, hbottom⟩

/-- Monitors in their places, in the desktop that is their bounding box. -/
def inPlace (cs : List Candidate) : Layout where
  monitors := cs.map (Candidate.placed (minX cs) (minY cs))
  width := toUnsigned 32 (maxX cs - minX cs)
  height := toUnsigned 32 (maxY cs - minY cs)

theorem inPlace_sound (hsome : cs ≠ []) (hfits : ∀ c ∈ cs, c.Fits)
    (hwidth : maxX cs - minX cs < 2 ^ 32) (hheight : maxY cs - minY cs < 2 ^ 32) (hone : primaries cs = 1)
    (hapart : ((inPlace cs).monitors.map fun m => pixels m.rect).Pairwise Disjoint) :
    Sound (inPlace cs) ∧ ((inPlace cs).width : ℤ) = maxX cs - minX cs ∧
      ((inPlace cs).height : ℤ) = maxY cs - minY cs := by
  obtain ⟨hinside, ⟨cl, hcl, hleft⟩, ⟨ct, hct, htop⟩, ⟨cr, hcr, hright⟩, ⟨cb, hcb, hbottom⟩⟩ :=
    box_of_candidates hsome hfits
  have hsides : ∀ c ∈ cs, ((c.placed (minX cs) (minY cs)).rect.x : ℤ) = c.left - minX cs ∧
      ((c.placed (minX cs) (minY cs)).rect.y : ℤ) = c.top - minY cs := by
    intro c hc
    obtain ⟨hl, ht, hr, hb⟩ := hinside c hc
    unfold Candidate.right Candidate.bottom at *
    exact ⟨toUnsigned_of_mem (by omega) (by omega), toUnsigned_of_mem (by omega) (by omega)⟩
  have hpos : 0 ≤ maxX cs - minX cs ∧ 0 ≤ maxY cs - minY cs := by
    obtain ⟨hl, ht, hr, hb⟩ := hinside cl hcl
    unfold Candidate.right Candidate.bottom at *
    omega
  have hW : ((inPlace cs).width : ℤ) = maxX cs - minX cs := toUnsigned_of_mem hpos.1 hwidth
  have hH : ((inPlace cs).height : ℤ) = maxY cs - minY cs := toUnsigned_of_mem hpos.2 hheight
  have hright' : ∀ c : Candidate, c.right = c.left + ((c.placed (minX cs) (minY cs)).rect.width : ℤ) := fun c => rfl
  have hbottom' : ∀ c : Candidate, c.bottom = c.top + ((c.placed (minX cs) (minY cs)).rect.height : ℤ) := fun c => rfl
  have hmem : ∀ c ∈ cs, c.placed (minX cs) (minY cs) ∈ (inPlace cs).monitors := fun c hc => List.mem_map_of_mem hc
  refine ⟨⟨hapart, ⟨?_, ?_, ⟨_, hmem cl hcl, ?_⟩, ⟨_, hmem ct hct, ?_⟩, ⟨_, hmem cr hcr, ?_⟩, ⟨_, hmem cb hcb, ?_⟩⟩,
    ?_, ?_, ?_⟩, hW, hH⟩
  · intro m hm
    obtain ⟨c, hc, rfl⟩ := List.mem_map.mp hm
    have := hsides c hc
    have := hinside c hc
    have := hright' c
    omega
  · intro m hm
    obtain ⟨c, hc, rfl⟩ := List.mem_map.mp hm
    have := hsides c hc
    have := hinside c hc
    have := hbottom' c
    omega
  · have := hsides cl hcl
    omega
  · have := hsides ct hct
    omega
  · have := hsides cr hcr
    have := hright' cr
    omega
  · have := hsides cb hcb
    have := hbottom' cb
    omega
  · have hfilter : (inPlace cs).monitors.filter DisplayMonitor.primary =
        (cs.filter fun c => c.monitor.primary).map (Candidate.placed (minX cs) (minY cs)) := List.filter_map
    rw [hfilter, List.length_map]
    exact hone
  · omega
  · omega

/-- The area that the checks see is the area of the monitors. -/
theorem inPlace_area (h : Sound (inPlace cs)) (hwidth : (inPlace cs).width ≤ 2 ^ 31)
    (hheight : (inPlace cs).height ≤ 2 ^ 31) : area (inPlace cs) = candidatesArea cs := by
  have hle := h.area_le.trans (Nat.mul_le_mul hwidth hheight)
  have hsum : area (inPlace cs) = (cs.map fun c => c.width * c.height).sum := by
    unfold area inPlace
    rw [List.map_map]
    rfl
  rw [candidatesArea, ← hsum]
  exact (mod_eq_of_lt (by omega)).symm

/-- **What `build` gives** is sound and within the limits, and has the sizes
that it was given. -/
theorem build_spec {candidates : List Candidate}
    (hextent : limits.maxExtent ≤ 2 ^ 31) (hfits : ∀ c ∈ candidates, c.Fits)
    (h : build candidates limits = .ok layout) :
    Sound layout ∧ WithinLimits limits layout ∧
      ∀ m ∈ layout.monitors, ∃ c ∈ candidates, m.rect.width = c.width ∧ m.rect.height = c.height := by
  unfold build at h
  by_cases hsome : candidates = []
  · rw [if_pos hsome] at h
    cases h
  rw [if_neg hsome] at h
  by_cases hfew : candidates.length > min limits.maxMonitors Channels.Disp.maxMonitors
  · rw [if_pos hfew] at h
    cases h
  rw [if_neg hfew] at h
  by_cases hprimary : primaries candidates > 1
  · rw [if_pos hprimary] at h
    cases h
  rw [if_neg hprimary] at h
  have hone := primaries_withPrimary hsome (not_lt.mp hprimary)
  have hlength := withPrimary_length candidates
  have hmem : ∀ c ∈ withPrimary candidates, c.Fits ∧ ∃ c' ∈ candidates, c.width = c'.width ∧ c.height = c'.height := by
    intro c hc
    rcases mem_withPrimary hc with hc | ⟨c', hc', rfl⟩
    · exact ⟨hfits c hc, c, hc, rfl, rfl⟩
    · obtain ⟨hl, ht, hw, hh⟩ := hfits c' hc'
      exact ⟨⟨hl, ht, hw, hh⟩, c', hc', rfl, rfl⟩
  have hsome' : withPrimary candidates ≠ [] := by
    intro hnil
    rw [hnil] at hlength
    exact hsome (List.eq_nil_of_length_eq_zero hlength.symm)
  dsimp only at h
  generalize withPrimary candidates = cs at h hone hlength hmem hsome'
  by_cases hlarge : maxX cs - minX cs > limits.maxExtent ∨ maxY cs - minY cs > limits.maxExtent
  · rw [if_pos hlarge] at h
    cases h
  rw [if_neg hlarge] at h
  by_cases harea : candidatesArea cs > limits.maxArea
  · rw [if_pos harea] at h
    cases h
  rw [if_neg harea] at h
  obtain ⟨heq, hapart⟩ := placeAll_ok h List.Pairwise.nil
  obtain rfl : layout = inPlace cs := heq
  push Not at hlarge
  obtain ⟨hsound, hwidth, hheight⟩ :=
    inPlace_sound hsome' (fun c hc => (hmem c hc).1) (by omega) (by omega) hone hapart
  refine ⟨hsound, ⟨?_, by omega, by omega, ?_⟩, fun m hm => ?_⟩
  · have hcount : (inPlace cs).monitors.length = cs.length := List.length_map _
    omega
  · rw [inPlace_area hsound (by omega) (by omega)]
    exact not_lt.mp harea
  · obtain ⟨c, hc, rfl⟩ := List.mem_map.mp hm
    exact (hmem c hc).2

/-! ### What a client asks for -/

/-- A candidate whose size the limits allow. -/
structure Candidate.Sized (limits : Limits) (c : Candidate) : Prop extends c.Fits where
  width_ok : SizeOk limits c.width
  height_ok : SizeOk limits c.height

theorem dispCandidates_sized : ∀ {ms : List MonitorLayout} {candidates : List Candidate},
    dispCandidates limits ms = .ok candidates → (∀ m ∈ ms, m.Fits) → ∀ c ∈ candidates, c.Sized limits
  | [], candidates, h, _ => by
    cases h
    exact fun c hc => absurd hc List.not_mem_nil
  | m :: ms, candidates, h, hfits => by
    obtain ⟨hm, hms⟩ := List.forall_mem_cons.mp hfits
    rw [dispCandidates] at h
    by_cases hsize : ¬ SizeOk limits m.width ∨ ¬ SizeOk limits m.height
    · rw [if_pos hsize] at h
      cases h
    rw [if_neg hsize] at h
    by_cases hodd : m.width % 2 ≠ 0
    · rw [if_pos hodd] at h
      cases h
    rw [if_neg hodd] at h
    push Not at hsize
    cases hrest : dispCandidates limits ms with
    | error e =>
      rw [hrest] at h
      cases h
    | ok rest =>
      rw [hrest] at h
      cases h
      refine List.forall_mem_cons.mpr ⟨?_, dispCandidates_sized hrest hms⟩
      exact ⟨⟨hm.left, hm.top, hm.width, hm.height⟩, hsize.1, hsize.2⟩

/-- A monitor of CS_MONITOR as it comes from the wire. -/
structure FitsDef (m : Proto.Gcc.MonitorDef) : Prop where
  left : Channels.Disp.Signed32 m.left
  top : Channels.Disp.Signed32 m.top
  right : Channels.Disp.Signed32 m.right
  bottom : Channels.Disp.Signed32 m.bottom

theorem clientCandidates_sized (hmax : limits.maxSize < 2 ^ 32) :
    ∀ {ms : List (Proto.Gcc.MonitorDef × MonitorAttributes)} {candidates : List Candidate},
    clientCandidates limits ms = some candidates → (∀ m ∈ ms, FitsDef m.1) → ∀ c ∈ candidates, c.Sized limits
  | [], candidates, h, _ => by
    cases h
    exact fun c hc => absurd hc List.not_mem_nil
  | (m, attributes) :: ms, candidates, h, hfits => by
    obtain ⟨hm, hms⟩ := List.forall_mem_cons.mp hfits
    rw [clientCandidates] at h
    by_cases hsize : ¬ SizeOk limits (m.right - m.left + 1) ∨ ¬ SizeOk limits (m.bottom - m.top + 1)
    · rw [if_pos hsize] at h
      cases h
    rw [if_neg hsize] at h
    push Not at hsize
    obtain ⟨⟨hw, hw'⟩, hh, hh'⟩ := hsize
    cases hrest : clientCandidates limits ms with
    | none =>
      rw [hrest] at h
      cases h
    | some rest =>
      rw [hrest] at h
      cases h
      have hwidth := toUnsigned_of_mem (v := m.right - m.left + 1) (by omega) (by omega)
      have hheight := toUnsigned_of_mem (v := m.bottom - m.top + 1) (by omega) (by omega)
      refine List.forall_mem_cons.mpr ⟨?_, clientCandidates_sized hmax hrest hms⟩
      refine ⟨⟨hm.left, hm.top, toUnsigned_lt 32 _, toUnsigned_lt 32 _⟩, ?_, ?_⟩
      · change SizeOk limits (toUnsigned 32 (m.right - m.left + 1) : ℤ)
        rw [hwidth]
        exact ⟨hw, hw'⟩
      · change SizeOk limits (toUnsigned 32 (m.bottom - m.top + 1) : ℤ)
        rw [hheight]
        exact ⟨hh, hh'⟩

/-- Candidates of a size that the limits allow, built. -/
theorem build_sized {candidates : List Candidate}
    (hextent : limits.maxExtent ≤ 2 ^ 31) (hsized : ∀ c ∈ candidates, c.Sized limits)
    (h : build candidates limits = .ok layout) :
    Sound layout ∧ WithinLimits limits layout ∧ (0 < limits.minSize → NoneEmpty layout) := by
  obtain ⟨hsound, hwithin, hsizes⟩ := build_spec hextent (fun c hc => (hsized c hc).toFits) h
  refine ⟨hsound, hwithin, fun hmin m hm => ?_⟩
  obtain ⟨c, hc, hw, hh⟩ := hsizes m hm
  have hwidth := (hsized c hc).width_ok.1
  have hheight := (hsized c hc).height_ok.1
  omega

/-- **A Display Control layout.** -/
theorem fromDisp_spec {monitors : List MonitorLayout}
    (hextent : limits.maxExtent ≤ 2 ^ 31) (hfits : ∀ m ∈ monitors, m.Fits)
    (h : fromDisp monitors limits = .ok layout) :
    Sound layout ∧ WithinLimits limits layout ∧ (0 < limits.minSize → NoneEmpty layout) := by
  unfold fromDisp at h
  cases hcandidates : dispCandidates limits monitors with
  | error e =>
    rw [hcandidates] at h
    cases h
  | ok candidates =>
    rw [hcandidates] at h
    exact build_sized hextent (dispCandidates_sized hcandidates hfits) h

theorem desktop_spec (hmax : 1 ≤ limits.maxSize ∧ limits.maxSize < 2 ^ 32) (data : ClientData)
    (width height : ℕ) :
    Sound (desktop data width height limits) ∧ NoneEmpty (desktop data width height limits) := by
  have hwide := DisplayLayout.clamp_le hmax.1 width
  have hhigh := DisplayLayout.clamp_le hmax.1 height
  refine ⟨single_sound (by omega) (by omega) _, fun m hm => ?_⟩
  obtain rfl := List.mem_singleton.mp hm
  exact ⟨DisplayLayout.le_clamp _ _ _, DisplayLayout.le_clamp _ _ _⟩

/-- **The layout of a client's data** is one of its monitors, within the
limits, or a single monitor of its desktop size. -/
theorem fromClientData_spec {data : ClientData} {width height : ℕ}
    (hextent : limits.maxExtent ≤ 2 ^ 31) (hmax : 1 ≤ limits.maxSize ∧ limits.maxSize < 2 ^ 32)
    (hfits : ∀ monitor ∈ data.monitor, ∀ m ∈ monitor.monitors, FitsDef m) :
    Sound (fromClientData data width height limits) ∧
      (0 < limits.minSize → NoneEmpty (fromClientData data width height limits)) ∧
      (WithinLimits limits (fromClientData data width height limits) ∨
        fromClientData data width height limits = desktop data width height limits) := by
  obtain ⟨hsound, hnone⟩ := desktop_spec hmax data width height
  unfold fromClientData
  cases hmonitor : data.monitor with
  | none => exact ⟨hsound, fun _ => hnone, Or.inr rfl⟩
  | some monitor =>
    dsimp only
    by_cases hempty : monitor.monitors = []
    · rw [if_pos hempty]
      exact ⟨hsound, fun _ => hnone, Or.inr rfl⟩
    rw [if_neg hempty]
    cases hcandidates : clientCandidates limits
        (monitor.monitors.zip (clientAttributes data monitor.monitors.length)) with
    | none => exact ⟨hsound, fun _ => hnone, Or.inr rfl⟩
    | some candidates =>
      dsimp only
      cases hbuild : build candidates limits with
      | error e => exact ⟨hsound, fun _ => hnone, Or.inr rfl⟩
      | ok layout =>
        have hsized := clientCandidates_sized hmax.2 hcandidates fun m hm =>
          hfits monitor hmonitor m.1 (List.of_mem_zip hm).1
        obtain ⟨hbuilt, hwithin, hfull⟩ := build_sized hextent hsized hbuild
        exact ⟨hbuilt, hfull, Or.inl hwithin⟩

end Layouts
end Server
end Farland
