/-
# Client monitors and screens

What `server/display_layout.cpp` is about: the client's monitors, and the
pictures of the server's screens, letterboxed on a monitor of another size.
`fitted` and `letterbox` compute in whole numbers; with 32-bit ones they are in
`Layouts`, where the layouts are built.

Key theorem: `letterbox_spec`.
-/
import Farland.Channels.Disp
import Farland.Channels.Rdpgfx.Server
import Mathlib.Data.List.GetD

namespace Farland
namespace Server

open List

open Channels.Rdpgfx (MonitorDef)
open Proto.Gcc (ClientData MonitorAttributes)

structure PixelRect where
  x : ℕ
  y : ℕ
  width : ℕ
  height : ℕ
  deriving DecidableEq

def noAttributes : MonitorAttributes := ⟨0, 0, 0, 0, 0⟩

/-- One client monitor; an attribute that the client did not send is 0. -/
structure DisplayMonitor where
  rect : PixelRect
  primary : Bool := false
  attributes : MonitorAttributes := noAttributes
  deriving DecidableEq

/-- Where one screen's picture shows in the desktop. -/
structure ScreenPlacement where
  screen : ℕ
  width : ℕ
  height : ℕ
  target : PixelRect
  deriving DecidableEq

structure OutputLayout where
  width : ℕ
  height : ℕ
  monitors : List MonitorDef
  screens : List ScreenPlacement
  fills : List PixelRect
  deriving DecidableEq

structure Letterbox where
  picture : PixelRect
  bars : List PixelRect
  deriving DecidableEq

def clamp (lo hi v : ℕ) : ℕ := max lo (min v hi)

/-- The size of a picture on a monitor: its own, or scaled down with its
aspect ratio kept, the other side rounded to the nearest pixel. -/
def fitted (monitor : PixelRect) (width height : ℕ) : ℕ × ℕ :=
  if width > monitor.width ∨ height > monitor.height then
    if monitor.width * height ≤ monitor.height * width then
      (clamp 1 monitor.width monitor.width,
        clamp 1 monitor.height ((height * monitor.width + width / 2) / width))
    else
      (clamp 1 monitor.width ((width * monitor.height + height / 2) / height),
        clamp 1 monitor.height monitor.height)
  else (width, height)

/-- A part of the monitor that the picture leaves uncovered, if it does. -/
def bar (p : Prop) [Decidable p] (rect : PixelRect) : List PixelRect := if p then [rect] else []

def letterbox (monitor : PixelRect) (width height : ℕ) : Letterbox :=
  let (w, h) := fitted monitor width height
  let p : PixelRect := ⟨monitor.x + (monitor.width - w) / 2, monitor.y + (monitor.height - h) / 2, w, h⟩
  let right := monitor.x + monitor.width
  let bottom := monitor.y + monitor.height
  { picture := p
    bars :=
      bar (p.y > monitor.y) ⟨monitor.x, monitor.y, monitor.width, p.y - monitor.y⟩ ++
        bar (p.y + p.height < bottom) ⟨monitor.x, p.y + p.height, monitor.width, bottom - (p.y + p.height)⟩ ++
        bar (p.x > monitor.x) ⟨monitor.x, p.y, p.x - monitor.x, p.height⟩ ++
        bar (p.x + p.width < right) ⟨p.x + p.width, p.y, right - (p.x + p.width), p.height⟩ }

theorem mem_bar {p : Prop} [Decidable p] {rect r : PixelRect} : r ∈ bar p rect ↔ p ∧ r = rect := by
  unfold bar
  split_ifs with hp <;> simp [hp]

theorem bar_length (p : Prop) [Decidable p] (rect : PixelRect) : (bar p rect).length ≤ 1 := by
  unfold bar
  split_ifs <;> simp

namespace DisplayLayout

/-! ### Monitors of the client -/

def overlap (a b : PixelRect) : Bool :=
  a.x < b.x + b.width && b.x < a.x + a.width && a.y < b.y + b.height && b.y < a.y + a.height

/-- The attributes that count: a value out of its range is as good as absent. -/
def setAttributes (a : MonitorAttributes) : MonitorAttributes :=
  let physicalOk : ℕ → Bool := fun mm => 10 ≤ mm && mm ≤ 10000
  let physical := physicalOk a.physicalWidth && physicalOk a.physicalHeight
  { physicalWidth := if physical then a.physicalWidth else 0
    physicalHeight := if physical then a.physicalHeight else 0
    orientation := if a.orientation ∈ [0, 90, 180, 270] then a.orientation else 0
    desktopScaleFactor :=
      if 100 ≤ a.desktopScaleFactor ∧ a.desktopScaleFactor ≤ 500 then a.desktopScaleFactor else 0
    deviceScaleFactor := if a.deviceScaleFactor ∈ [100, 140, 180] then a.deviceScaleFactor else 0 }

/-- The attributes of CS_MONITOR_EX, when it describes as many monitors. -/
def clientAttributes (data : ClientData) (count : ℕ) : List MonitorAttributes :=
  match data.monitorEx with
  | none => List.replicate count noAttributes
  | some ex =>
    if ex.monitors.length = count then ex.monitors.map setAttributes else List.replicate count noAttributes

/-- A screen on its monitor, unless it has no picture yet. -/
structure Placed where
  screen : ℕ
  monitor : ℕ
  width : ℕ
  height : ℕ
  deriving DecidableEq

/-! ### What is placed fits -/

theorem clamp_le {lo hi : ℕ} (h : lo ≤ hi) (v : ℕ) : clamp lo hi v ≤ hi := max_le h (min_le_right _ _)

theorem le_clamp (lo hi v : ℕ) : lo ≤ clamp lo hi v := le_max_left _ _

/-- A side that a surface can have. -/
def Side (largest side : ℕ) : Prop := 0 < side ∧ side ≤ largest

theorem clamp_side {hi : ℕ} (h : 0 < hi) (v : ℕ) : Side hi (clamp 1 hi v) :=
  ⟨le_clamp 1 hi v, clamp_le h v⟩

/-- The sides of a picture on its monitor: within the monitor's, and not
above the picture's own. -/
structure FitsOn (monitor : PixelRect) (width height : ℕ) (size : ℕ × ℕ) : Prop where
  width_pos : 0 < size.1
  height_pos : 0 < size.2
  width_le : size.1 ≤ monitor.width
  height_le : size.2 ≤ monitor.height
  width_le' : size.1 ≤ width
  height_le' : size.2 ≤ height

/-- A side scaled down by a factor below one, rounded, is not above itself. -/
theorem scaled_le {side num den : ℕ} (hden : 0 < den) (h : num < den) : (side * num + den / 2) / den ≤ side := by
  rw [Nat.div_le_iff_le_mul_add_pred hden]
  have hmul : side * num ≤ side * den := Nat.mul_le_mul_left _ h.le
  rw [Nat.mul_comm den side]
  omega

theorem fitted_spec {monitor : PixelRect} {width height : ℕ} (hmonitor : 0 < monitor.width ∧ 0 < monitor.height)
    (hwidth : 0 < width) (hheight : 0 < height) : FitsOn monitor width height (fitted monitor width height) := by
  unfold fitted
  have hside := fun v => clamp_side hmonitor.1 v
  have hside' := fun v => clamp_side hmonitor.2 v
  split_ifs with hlarge hwide
  · -- the width decides: it is above the monitor's
    have hlt : monitor.width < width := by
      by_contra hle
      push Not at hle
      have hhigh : monitor.height < height := by omega
      have : monitor.height * width < height * width := Nat.mul_lt_mul_of_pos_right hhigh hwidth
      have : height * width ≤ monitor.width * height := by
        rw [Nat.mul_comm height width]
        exact Nat.mul_le_mul_right _ hle
      omega
    have hscaled := @scaled_le height _ _ hwidth hlt
    exact
      { width_pos := (hside _).1
        height_pos := (hside' _).1
        width_le := (hside _).2
        height_le := (hside' _).2
        width_le' := ((hside _).2).trans hlt.le
        height_le' := max_le hheight ((min_le_left _ _).trans hscaled) }
  · have hlt : monitor.height < height := by
      by_contra hle
      push Not at hle
      have hhigh : monitor.width < width := by omega
      have : monitor.width * height < width * height := Nat.mul_lt_mul_of_pos_right hhigh hheight
      have : width * height ≤ monitor.height * width := by
        rw [Nat.mul_comm width height]
        exact Nat.mul_le_mul_right _ hle
      omega
    have hscaled := @scaled_le width _ _ hheight hlt
    exact
      { width_pos := (hside _).1
        height_pos := (hside' _).1
        width_le := (hside _).2
        height_le := (hside' _).2
        width_le' := max_le hwidth ((min_le_left _ _).trans hscaled)
        height_le' := ((hside' _).2).trans hlt.le }
  · push Not at hlarge
    exact ⟨hwidth, hheight, hlarge.1, hlarge.2, le_rfl, le_rfl⟩

/-- **A letterboxed picture fits its monitor and is not enlarged**, and each
of its bars, of which there are at most four, has pixels and fits as well. -/
theorem letterbox_spec {monitor : PixelRect} {width height : ℕ} (hmonitor : 0 < monitor.width ∧ 0 < monitor.height)
    (hwidth : 0 < width) (hheight : 0 < height) :
    FitsOn monitor width height ((letterbox monitor width height).picture.width,
      (letterbox monitor width height).picture.height) ∧
      (∀ bar ∈ (letterbox monitor width height).bars, Side monitor.width bar.width ∧ Side monitor.height bar.height) ∧
      (letterbox monitor width height).bars.length ≤ 4 := by
  have hfit := fitted_spec hmonitor hwidth hheight
  unfold letterbox
  obtain ⟨hw, hh, hw', hh', hw'', hh''⟩ := hfit
  refine ⟨⟨hw, hh, hw', hh', hw'', hh''⟩, fun rect hrect => ?_, ?_⟩
  · simp only [mem_append, mem_bar] at hrect
    rcases hrect with ((⟨htop, rfl⟩ | ⟨hbottom, rfl⟩) | ⟨hleft, rfl⟩) | ⟨hright, rfl⟩
    · exact ⟨⟨hmonitor.1, le_rfl⟩, by dsimp only; omega, by dsimp only; omega⟩
    · exact ⟨⟨hmonitor.1, le_rfl⟩, by dsimp only; omega, by dsimp only; omega⟩
    · exact ⟨⟨by dsimp only; omega, by dsimp only; omega⟩, hh, hh'⟩
    · exact ⟨⟨by dsimp only; omega, by dsimp only; omega⟩, hh, hh'⟩
  · simp only [length_append]
    calc _ ≤ 1 + 1 + 1 + 1 := Nat.add_le_add (Nat.add_le_add (Nat.add_le_add (bar_length _ _) (bar_length _ _))
          (bar_length _ _)) (bar_length _ _)
      _ = 4 := rfl

end DisplayLayout
end Server
end Farland
