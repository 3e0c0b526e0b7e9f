/-
# Screens tile the monitors

The pictures, the bars around them and the monitors that are filled tile a
sound layout: none is empty, no two of them meet, and together they are its
monitors. A picture keeps its size where it fits, and else reaches from one
edge of its monitor to the other.

Key theorems: `letterbox_tiles`, `place_tiles`, **`made_layouts`**.
-/
import Farland.Server.Layouts

namespace Farland
namespace Server
namespace Layouts

open List Layout

open Channels.Disp (MonitorLayout)
open Proto.Gcc (ClientData)
open Tiling

/-! ### Letterboxes -/

theorem scaled_eq {side num den other : ℕ} (hside : side < 2 ^ 32) (hnum : num < 2 ^ 32) (hden : 0 < den ∧ den < 2 ^ 32)
    (hother : other < 2 ^ 32) (h : side * num ≤ other * den) : scaled side num den = (side * num + den / 2) / den := by
  have hproduct : side * num ≤ (2 ^ 32 - 1) * (2 ^ 32 - 1) := Nat.mul_le_mul (by omega) (by omega)
  have hquotient : (side * num + den / 2) / den ≤ other := by
    rw [Nat.div_le_iff_le_mul_add_pred hden.1, Nat.mul_comm den other]
    omega
  unfold scaled
  rw [Nat.mod_eq_of_lt (by omega : side * num + den / 2 < 2 ^ 64)]
  exact Nat.mod_eq_of_lt (hquotient.trans_lt hother)

theorem fitted32_eq {monitor : PixelRect} {width height : ℕ} (hmonitor : monitor.width < 2 ^ 32 ∧ monitor.height < 2 ^ 32)
    (hwidth : 0 < width ∧ width < 2 ^ 32) (hheight : 0 < height ∧ height < 2 ^ 32) :
    fitted32 monitor width height = fitted monitor width height := by
  unfold fitted32 fitted
  by_cases hlarge : width > monitor.width ∨ height > monitor.height
  · by_cases hwide : monitor.width * height ≤ monitor.height * width
    · rw [if_pos hwide, if_pos hwide, scaled_eq hheight.2 hmonitor.1 hwidth hmonitor.2 (by rwa [Nat.mul_comm height])]
    · rw [if_neg hwide, if_neg hwide, scaled_eq hwidth.2 hmonitor.2 hheight hmonitor.1]
      rw [Nat.mul_comm width]
      exact (not_le.mp hwide).le
  · rw [if_neg hlarge, if_neg hlarge]

/-- A monitor in a desktop of less than 2³² pixels in either direction. -/
structure OnDesktop (monitor : PixelRect) : Prop where
  width_pos : 0 < monitor.width
  height_pos : 0 < monitor.height
  right_lt : monitor.x + monitor.width < 2 ^ 32
  bottom_lt : monitor.y + monitor.height < 2 ^ 32

variable {monitor : PixelRect} {width height : ℕ}

/-- Nothing wraps around. -/
theorem letterbox32_eq (hmonitor : OnDesktop monitor) (hwidth : 0 < width ∧ width < 2 ^ 32)
    (hheight : 0 < height ∧ height < 2 ^ 32) : letterbox32 monitor width height = letterbox monitor width height := by
  obtain ⟨hw, hh, hright, hbottom⟩ := hmonitor
  have hfit := DisplayLayout.fitted_spec ⟨hw, hh⟩ hwidth.1 hheight.1
  unfold letterbox32 letterbox
  rw [fitted32_eq ⟨by omega, by omega⟩ hwidth hheight]
  generalize fitted monitor width height = size at hfit
  obtain ⟨w, h⟩ := size
  obtain ⟨-, -, hwide, hhigh, -, -⟩ := hfit
  dsimp only at *
  have hx : sum32 monitor.x ((monitor.width - w) / 2) = monitor.x + (monitor.width - w) / 2 :=
    Nat.mod_eq_of_lt (by omega)
  have hy : sum32 monitor.y ((monitor.height - h) / 2) = monitor.y + (monitor.height - h) / 2 :=
    Nat.mod_eq_of_lt (by omega)
  have hx' : sum32 (monitor.x + (monitor.width - w) / 2) w = monitor.x + (monitor.width - w) / 2 + w :=
    Nat.mod_eq_of_lt (by omega)
  have hy' : sum32 (monitor.y + (monitor.height - h) / 2) h = monitor.y + (monitor.height - h) / 2 + h :=
    Nat.mod_eq_of_lt (by omega)
  have hr : sum32 monitor.x monitor.width = monitor.x + monitor.width := Nat.mod_eq_of_lt hright
  have hb : sum32 monitor.y monitor.height = monitor.y + monitor.height := Nat.mod_eq_of_lt hbottom
  rw [hx, hy, hx', hy', hr, hb]

/-- The rectangles of a letterbox. -/
def parts (box : Letterbox) : List PixelRect := box.picture :: box.bars

theorem pairwise_bar {R : PixelRect → PixelRect → Prop} (p : Prop) [Decidable p] (rect : PixelRect) :
    (bar p rect).Pairwise R := by
  unfold bar
  split_ifs
  · exact pairwise_singleton _ _
  · exact List.Pairwise.nil

/-- **A picture and its bars** tile the monitor. -/
theorem letterbox_tiles (hmonitor : 0 < monitor.width ∧ 0 < monitor.height) (hwidth : 0 < width) (hheight : 0 < height) :
    Tiles ((parts (letterbox monitor width height)).map pixels) (pixels monitor) := by
  have hfit := DisplayLayout.fitted_spec hmonitor hwidth hheight
  unfold parts letterbox
  generalize fitted monitor width height = size at hfit
  obtain ⟨w, h⟩ := size
  obtain ⟨hw, hh, hwide, hhigh, -, -⟩ := hfit
  dsimp only at *
  obtain ⟨px, hpx⟩ : ∃ px, px = monitor.x + (monitor.width - w) / 2 := ⟨_, rfl⟩
  obtain ⟨py, hpy⟩ : ∃ py, py = monitor.y + (monitor.height - h) / 2 := ⟨_, rfl⟩
  rw [← hpx, ← hpy]
  have hinside : monitor.x ≤ px ∧ px + w ≤ monitor.x + monitor.width ∧ monitor.y ≤ py ∧
      py + h ≤ monitor.y + monitor.height := by omega
  clear hpx hpy
  constructor
  · apply pairwise_map.mpr
    refine List.Pairwise.imp (fun hbeside => Beside.disjoint hbeside) ?_
    simp only [pairwise_cons, pairwise_append, mem_append, mem_bar, pairwise_bar, true_and]
    unfold Beside
    -- the picture and the bars; the bars above and below; the one on the left; the one on the right
    refine ⟨?_, ⟨?_, ?_⟩, ?_⟩
    · rintro r (((⟨-, rfl⟩ | ⟨-, rfl⟩) | ⟨-, rfl⟩) | ⟨-, rfl⟩) <;> dsimp only <;> omega
    · rintro r ⟨-, rfl⟩ s ⟨-, rfl⟩
      dsimp only
      omega
    · rintro r (⟨-, rfl⟩ | ⟨-, rfl⟩) s ⟨-, rfl⟩ <;> dsimp only <;> omega
    · rintro r ((⟨-, rfl⟩ | ⟨-, rfl⟩) | ⟨-, rfl⟩) s ⟨-, rfl⟩ <;> dsimp only <;> omega
  · rintro ⟨x, y⟩
    simp only [mem_map, mem_cons, mem_append, mem_bar]
    constructor
    · intro hmem
      rw [mem_pixels] at hmem
      by_cases htop : y < py
      · exact ⟨_, ⟨_, Or.inr (Or.inl (Or.inl (Or.inl ⟨by omega, rfl⟩))), rfl⟩, by
          rw [mem_pixels]
          dsimp only
          omega⟩
      by_cases hbottom : py + h ≤ y
      · exact ⟨_, ⟨_, Or.inr (Or.inl (Or.inl (Or.inr ⟨by omega, rfl⟩))), rfl⟩, by
          rw [mem_pixels]
          dsimp only
          omega⟩
      by_cases hleft : x < px
      · exact ⟨_, ⟨_, Or.inr (Or.inl (Or.inr ⟨by omega, rfl⟩)), rfl⟩, by
          rw [mem_pixels]
          dsimp only
          omega⟩
      by_cases hright : px + w ≤ x
      · exact ⟨_, ⟨_, Or.inr (Or.inr ⟨by omega, rfl⟩), rfl⟩, by
          rw [mem_pixels]
          dsimp only
          omega⟩
      exact ⟨_, ⟨_, Or.inl rfl, rfl⟩, by
        rw [mem_pixels]
        dsimp only
        omega⟩
    · rintro ⟨_, ⟨r, hr, rfl⟩, hmem⟩
      rw [mem_pixels] at hmem ⊢
      rcases hr with rfl | ((⟨-, rfl⟩ | ⟨-, rfl⟩) | ⟨-, rfl⟩) | ⟨-, rfl⟩ <;> dsimp only at hmem ⊢ <;> omega

/-- Where a picture of a given size shows on a monitor. -/
structure Shows (monitor : PixelRect) (width height : ℕ) (target : PixelRect) : Prop where
  left_le : monitor.x ≤ target.x
  top_le : monitor.y ≤ target.y
  right_le : target.x + target.width ≤ monitor.x + monitor.width
  bottom_le : target.y + target.height ≤ monitor.y + monitor.height
  width_le : target.width ≤ width
  height_le : target.height ≤ height
  same : width ≤ monitor.width ∧ height ≤ monitor.height → target.width = width ∧ target.height = height
  full : ¬ (width ≤ monitor.width ∧ height ≤ monitor.height) →
    (target.x = monitor.x ∧ target.width = monitor.width) ∨ (target.y = monitor.y ∧ target.height = monitor.height)

/-- One side of a picture that is scaled down is the monitor's. -/
theorem fitted_full (hmonitor : 0 < monitor.width ∧ 0 < monitor.height)
    (h : ¬ (width ≤ monitor.width ∧ height ≤ monitor.height)) :
    (fitted monitor width height).1 = monitor.width ∨ (fitted monitor width height).2 = monitor.height := by
  have hside : ∀ side : ℕ, 0 < side → clamp 1 side side = side := fun side hside => by
    unfold clamp
    omega
  unfold fitted
  rw [if_pos (by omega)]
  split_ifs
  · exact Or.inl (hside _ hmonitor.1)
  · exact Or.inr (hside _ hmonitor.2)

theorem letterbox_shows (hmonitor : 0 < monitor.width ∧ 0 < monitor.height) (hwidth : 0 < width) (hheight : 0 < height) :
    Shows monitor width height (letterbox monitor width height).picture := by
  obtain ⟨-, -, hwide, hhigh, hwidth', hheight'⟩ := DisplayLayout.fitted_spec hmonitor hwidth hheight
  have hsame : width ≤ monitor.width ∧ height ≤ monitor.height → fitted monitor width height = (width, height) :=
    fun h => if_neg (by omega)
  have hfull := @fitted_full monitor width height hmonitor
  unfold letterbox
  refine ⟨by dsimp only; omega, by dsimp only; omega, by dsimp only; omega, by dsimp only; omega, hwidth', hheight',
    fun hfits => ?_, fun hlarge => ?_⟩
  · exact ⟨congrArg Prod.fst (hsame hfits), congrArg Prod.snd (hsame hfits)⟩
  · rcases hfull hlarge with hw | hh
    · exact Or.inl ⟨by dsimp only; omega, hw⟩
    · exact Or.inr ⟨by dsimp only; omega, hh⟩

/-! ### Screens on monitors -/

namespace Layout

variable {layout : Layout}

theorem monitors_ne_nil (h : Sound layout) : layout.monitors ≠ [] := by
  intro hnil
  have hprimary := h.primary
  rw [hnil] at hprimary
  cases hprimary

/-- Every screen that shows has a monitor to itself. -/
theorem screenMonitors_spec (h : Sound layout) (screens : ℕ) :
    (layout.screenMonitors screens).Nodup ∧ (layout.screenMonitors screens).length ≤ screens ∧
      ∀ i ∈ layout.screenMonitors screens, i < layout.monitors.length := by
  have hpos := length_pos_iff.mpr (monitors_ne_nil h)
  unfold screenMonitors
  split_ifs with hnone hone hprimary
  · exact ⟨nodup_nil, Nat.zero_le _, by simp⟩
  · refine ⟨nodup_singleton _, by simp [hone], fun i hi => ?_⟩
    obtain rfl := mem_singleton.mp hi
    exact findIdx_lt_length_of_exists (any_eq_true.mp hprimary)
  · refine ⟨nodup_singleton _, by simp [hone], fun i hi => ?_⟩
    obtain rfl := mem_singleton.mp hi
    exact hpos
  · have hperm := mergeSort_perm (List.range layout.monitors.length) layout.before
    refine ⟨?_, length_take_le _ _, fun i hi => ?_⟩
    · exact (hperm.nodup_iff.mpr nodup_range).sublist (take_sublist _ _)
    · exact mem_range.mp (hperm.mem_iff.mp (mem_of_mem_take hi))

/-- A placed screen has a picture, on a monitor. -/
theorem mem_placedScreens (h : Sound layout) {sizes : List (ℕ × ℕ)} {p : DisplayLayout.Placed}
    (hp : p ∈ layout.placedScreens sizes) :
    p.monitor < layout.monitors.length ∧ 0 < p.width ∧ 0 < p.height ∧ sizes[p.screen]? = some (p.width, p.height) := by
  obtain ⟨hmap, hpos⟩ := mem_filter.mp hp
  obtain ⟨⟨⟨monitor, size⟩, screen⟩, hmem, rfl⟩ := mem_map.mp hmap
  simp only [Bool.and_eq_true, bne_iff_ne] at hpos
  have hzip := mem_zipIdx_iff_getElem?.mp hmem
  obtain ⟨horder, hsize⟩ := getElem?_zip_eq_some.mp hzip
  exact ⟨(screenMonitors_spec h _).2.2 _ (mem_of_getElem? horder), Nat.pos_of_ne_zero hpos.1,
    Nat.pos_of_ne_zero hpos.2, hsize⟩

theorem placedScreens_nodup (h : Sound layout) (sizes : List (ℕ × ℕ)) :
    ((layout.placedScreens sizes).map (·.monitor)).Nodup := by
  obtain ⟨hnodup, hlength, -⟩ := screenMonitors_spec h sizes.length
  have hall : (((layout.screenMonitors sizes.length).zip sizes).zipIdx.map fun p =>
      (⟨p.2, p.1.1, p.1.2.1, p.1.2.2⟩ : DisplayLayout.Placed)).map (·.monitor) =
        layout.screenMonitors sizes.length := by
    rw [map_map]
    calc _ = ((((layout.screenMonitors sizes.length).zip sizes).zipIdx.map Prod.fst).map Prod.fst) := by
          rw [map_map]
          rfl
      _ = _ := by rw [zipIdx_map_fst, map_fst_zip hlength]
  refine List.Nodup.sublist ?_ (hall ▸ hnodup)
  exact filter_sublist.map _

/-- Every monitor shows a screen or is filled. -/
theorem placed_perm (h : Sound layout) (sizes : List (ℕ × ℕ)) :
    ((layout.placedScreens sizes).map (·.monitor) ++ layout.uncovered sizes).Perm
      (List.range layout.monitors.length) := by
  have huncovered : ∀ i, i ∈ layout.uncovered sizes ↔
      i < layout.monitors.length ∧ i ∉ (layout.placedScreens sizes).map (·.monitor) := by
    intro i
    unfold uncovered
    simp
  have hplaced : ∀ i ∈ (layout.placedScreens sizes).map (·.monitor), i < layout.monitors.length := by
    intro i hi
    obtain ⟨p, hp, rfl⟩ := mem_map.mp hi
    exact (mem_placedScreens h hp).1
  have hnodup : ((layout.placedScreens sizes).map (·.monitor) ++ layout.uncovered sizes).Nodup := by
    refine (placedScreens_nodup h sizes).append (nodup_range.filter _) ?_
    intro i hi hi'
    exact ((huncovered i).mp hi').2 hi
  refine (perm_ext_iff_of_nodup hnodup nodup_range).mpr fun i => ?_
  rw [mem_append, huncovered, mem_range]
  constructor
  · rintro (hi | hi)
    · exact hplaced i hi
    · exact hi.1
  · intro hi
    by_cases hmem : i ∈ (layout.placedScreens sizes).map (·.monitor)
    · exact Or.inl hmem
    · exact Or.inr ⟨hi, hmem⟩

theorem rectOf_mem {i : ℕ} (hi : i < layout.monitors.length) : ∃ m ∈ layout.monitors, layout.rectOf i = m.rect :=
  ⟨_, getElem_mem hi, by rw [rectOf, getD_eq_getElem _ _ hi]⟩

theorem map_rectOf : (List.range layout.monitors.length).map layout.rectOf = layout.monitors.map DisplayMonitor.rect := by
  refine ext_getElem (by simp) fun i hi hi' => ?_
  rw [length_map] at hi'
  rw [getElem_map, getElem_map, getElem_range, rectOf, getD_eq_getElem _ _ hi']

/-- A monitor with pixels, on a desktop. -/
theorem rectOf_onDesktop (h : Sound layout) (hnone : NoneEmpty layout) {i : ℕ} (hi : i < layout.monitors.length) :
    OnDesktop (layout.rectOf i) := by
  obtain ⟨m, hm, hrect⟩ := rectOf_mem hi
  rw [hrect]
  exact ⟨(hnone m hm).1, (hnone m hm).2, (h.bounds.right_le m hm).trans_lt h.width_lt,
    (h.bounds.bottom_le m hm).trans_lt h.height_lt⟩

/-- The box of a placed screen is as if integers had no bound. -/
theorem box_eq (h : Sound layout) (hnone : NoneEmpty layout) {sizes : List (ℕ × ℕ)}
    (hsizes : ∀ s ∈ sizes, s.1 < 2 ^ 32 ∧ s.2 < 2 ^ 32) {p : DisplayLayout.Placed} (hp : p ∈ layout.placedScreens sizes) :
    letterbox32 (layout.rectOf p.monitor) p.width p.height = letterbox (layout.rectOf p.monitor) p.width p.height := by
  obtain ⟨hmonitor, hwidth, hheight, hsize⟩ := mem_placedScreens h hp
  have hsmall := hsizes _ (mem_of_getElem? hsize)
  exact letterbox32_eq (rectOf_onDesktop h hnone hmonitor) ⟨hwidth, hsmall.1⟩ ⟨hheight, hsmall.2⟩

end Layout

/-! ### What is placed tiles the monitors -/

/-- Where the monitors of a layout are. -/
def desktopPixels (layout : Layout) : Set (ℕ × ℕ) := {p | ∃ m ∈ layout.monitors, p ∈ pixels m.rect}

/-- The targets and the fills of an output. -/
def outputParts (out : OutputLayout) : List PixelRect := out.screens.map (·.target) ++ out.fills

variable {layout : Layout}

theorem monitors_tile (h : Sound layout) :
    Tiles (layout.monitors.map fun m => pixels m.rect) (desktopPixels layout) where
  apart := h.apart
  cover p := by
    simp only [mem_map, exists_exists_and_eq_and]
    rfl

/-- The parts of an output, monitor after monitor. -/
theorem outputParts_perm (layout : Layout) (sizes : List (ℕ × ℕ)) :
    (outputParts (layout.place sizes)).Perm
      ((layout.placedScreens sizes).flatMap (fun p => parts (letterbox32 (layout.rectOf p.monitor) p.width p.height)) ++
        (layout.uncovered sizes).map layout.rectOf) := by
  unfold outputParts place
  rw [map_map, ← append_assoc]
  apply List.Perm.append_right
  exact map_append_flatMap_perm _ _ _

variable {sizes : List (ℕ × ℕ)}

/-- **Targets and fills tile the monitors.** -/
theorem place_tiles (h : Sound layout) (hnone : NoneEmpty layout) (hsizes : ∀ s ∈ sizes, s.1 < 2 ^ 32 ∧ s.2 < 2 ^ 32) :
    Tiles ((outputParts (layout.place sizes)).map pixels) (desktopPixels layout) := by
  -- each monitor with what tiles it
  obtain ⟨pieces, hpieces⟩ : ∃ pieces : List (List (Set (ℕ × ℕ)) × Set (ℕ × ℕ)), pieces =
      (layout.placedScreens sizes).map (fun p =>
        ((parts (letterbox32 (layout.rectOf p.monitor) p.width p.height)).map pixels,
          pixels (layout.rectOf p.monitor))) ++
      (layout.uncovered sizes).map fun i => ([pixels (layout.rectOf i)], pixels (layout.rectOf i)) := ⟨_, rfl⟩
  have htiled : ∀ x ∈ pieces, Tiles x.1 x.2 := by
    intro x hx
    rw [hpieces] at hx
    rcases mem_append.mp hx with hx | hx
    · obtain ⟨p, hp, rfl⟩ := mem_map.mp hx
      obtain ⟨hmonitor, hwidth, hheight, -⟩ := mem_placedScreens h hp
      have hdesktop := rectOf_onDesktop h hnone hmonitor
      rw [box_eq h hnone hsizes hp]
      exact letterbox_tiles ⟨hdesktop.width_pos, hdesktop.height_pos⟩ hwidth hheight
    · obtain ⟨i, -, rfl⟩ := mem_map.mp hx
      exact Tiles.singleton _
  have hwholes : (pieces.map Prod.snd).Perm (layout.monitors.map fun m => pixels m.rect) := by
    have hperm := ((placed_perm h sizes).map layout.rectOf).map pixels
    rw [map_rectOf] at hperm
    rw [hpieces]
    simpa only [map_append, map_map, Function.comp_def] using hperm
  have hparts : (pieces.flatMap Prod.fst).Perm ((outputParts (layout.place sizes)).map pixels) := by
    have hflat : pieces.flatMap Prod.fst =
        ((layout.placedScreens sizes).flatMap (fun p =>
          parts (letterbox32 (layout.rectOf p.monitor) p.width p.height)) ++
          (layout.uncovered sizes).map layout.rectOf).map pixels := by
      rw [hpieces, flatMap_append, map_append, map_flatMap, flatMap_map, flatMap_map,
        map_map]
      congr 1
      exact map_eq_flatMap.symm
    rw [hflat]
    exact (outputParts_perm layout sizes).symm.map pixels
  exact (Tiles.refine htiled ((monitors_tile h).perm hwholes.symm)).perm hparts

theorem parts_pos (hmonitor : 0 < monitor.width ∧ 0 < monitor.height) (hwidth : 0 < width) (hheight : 0 < height) :
    ∀ r ∈ parts (letterbox monitor width height), 0 < r.width ∧ 0 < r.height := by
  obtain ⟨hfit, hbars, -⟩ := DisplayLayout.letterbox_spec hmonitor hwidth hheight
  intro r hr
  rcases mem_cons.mp hr with rfl | hr
  · exact ⟨hfit.width_pos, hfit.height_pos⟩
  · exact ⟨(hbars r hr).1.1, (hbars r hr).2.1⟩

/-- Nothing that is placed is empty. -/
theorem outputParts_pos (h : Sound layout) (hnone : NoneEmpty layout)
    (hsizes : ∀ s ∈ sizes, s.1 < 2 ^ 32 ∧ s.2 < 2 ^ 32) :
    ∀ r ∈ outputParts (layout.place sizes), 0 < r.width ∧ 0 < r.height := by
  intro r hr
  rcases mem_append.mp ((outputParts_perm layout sizes).mem_iff.mp hr) with hr | hr
  · obtain ⟨p, hp, hr⟩ := mem_flatMap.mp hr
    obtain ⟨hmonitor, hwidth, hheight, -⟩ := mem_placedScreens h hp
    have hdesktop := rectOf_onDesktop h hnone hmonitor
    rw [box_eq h hnone hsizes hp] at hr
    exact parts_pos ⟨hdesktop.width_pos, hdesktop.height_pos⟩ hwidth hheight r hr
  · obtain ⟨i, hi, rfl⟩ := mem_map.mp hr
    have hdesktop := rectOf_onDesktop h hnone (mem_range.mp (mem_filter.mp hi).1)
    exact ⟨hdesktop.width_pos, hdesktop.height_pos⟩

/-- A rectangle with pixels that are all on the desktop lies inside it. -/
theorem inside_of_subset (h : Sound layout) {r : PixelRect} (hpos : 0 < r.width ∧ 0 < r.height)
    (hsub : pixels r ⊆ desktopPixels layout) : r.x + r.width ≤ layout.width ∧ r.y + r.height ≤ layout.height := by
  have hlast : (r.x + r.width - 1, r.y + r.height - 1) ∈ pixels r := by
    rw [mem_pixels]
    omega
  obtain ⟨m, hm, hmem⟩ := hsub hlast
  have hright := h.bounds.right_le m hm
  have hbottom := h.bounds.bottom_le m hm
  rw [mem_pixels] at hmem
  omega

/-- What `place` promises of its output. -/
structure Placed (layout : Layout) (sizes : List (ℕ × ℕ)) (out : OutputLayout) : Prop where
  pos : ∀ r ∈ outputParts out, 0 < r.width ∧ 0 < r.height
  tiles : Tiles ((outputParts out).map pixels) (desktopPixels layout)
  inside : ∀ r ∈ outputParts out, r.x + r.width ≤ layout.width ∧ r.y + r.height ≤ layout.height
  shows : ∀ p ∈ out.screens, sizes[p.screen]? = some (p.width, p.height) ∧
    ∃ m ∈ layout.monitors, Shows m.rect p.width p.height p.target

/-- **Placing screens** on a sound layout whose monitors have pixels. -/
theorem place_placed (h : Sound layout) (hnone : NoneEmpty layout) (hsizes : ∀ s ∈ sizes, s.1 < 2 ^ 32 ∧ s.2 < 2 ^ 32) :
    Placed layout sizes (layout.place sizes) := by
  have hpos := outputParts_pos h hnone hsizes
  have htiles := place_tiles h hnone hsizes
  refine ⟨hpos, htiles, fun r hr => ?_, fun q hq => ?_⟩
  · exact inside_of_subset h (hpos r hr) (htiles.subset (mem_map_of_mem hr))
  · obtain ⟨p, hp, rfl⟩ := mem_map.mp hq
    obtain ⟨hmonitor, hwidth, hheight, hsize⟩ := mem_placedScreens h hp
    obtain ⟨m, hm, hrect⟩ := rectOf_mem hmonitor
    have hdesktop := rectOf_onDesktop h hnone hmonitor
    refine ⟨hsize, m, hm, ?_⟩
    dsimp only
    rw [box_eq h hnone hsizes hp, ← hrect]
    exact letterbox_shows ⟨hdesktop.width_pos, hdesktop.height_pos⟩ hwidth hheight

/-! ### Every layout -/

/-- The ways to a layout, with values that fit their fields. -/
inductive Made (limits : Limits) : Layout → Prop where
  | single {width height : ℕ} (hwidth : 0 < width ∧ width < 2 ^ 32) (hheight : 0 < height ∧ height < 2 ^ 32) :
    Made limits (single width height)
  | row {sizes : List (ℕ × ℕ)} (hextent : 1 ≤ limits.maxExtent ∧ limits.maxExtent < 2 ^ 31) :
    Made limits (row sizes limits)
  | fromDisp {monitors : List MonitorLayout} {layout : Layout} (hextent : limits.maxExtent ≤ 2 ^ 31)
    (hfits : ∀ m ∈ monitors, m.Fits) (h : fromDisp monitors limits = .ok layout) : Made limits layout
  | fromClientData {data : ClientData} {width height : ℕ} (hextent : limits.maxExtent ≤ 2 ^ 31)
    (hmax : 1 ≤ limits.maxSize ∧ limits.maxSize < 2 ^ 32)
    (hfits : ∀ monitor ∈ data.monitor, ∀ m ∈ monitor.monitors, FitsDef m) :
    Made limits (fromClientData data width height limits)

theorem Made.sound {limits : Limits} (h : Made limits layout) :
    Sound layout ∧ (0 < limits.minSize → NoneEmpty layout) := by
  cases h with
  | single hwidth hheight =>
    refine ⟨single_sound hwidth.2 hheight.2 _, fun _ m hm => ?_⟩
    obtain rfl := mem_singleton.mp hm
    exact ⟨hwidth.1, hheight.1⟩
  | @row sizes hextent =>
    have hbuilt := row_built hextent sizes
    exact ⟨hbuilt.sound, fun _ => hbuilt.noneEmpty⟩
  | fromDisp hextent hfits h =>
    obtain ⟨hsound, -, hnone⟩ := fromDisp_spec hextent hfits h
    exact ⟨hsound, hnone⟩
  | fromClientData hextent hmax hfits =>
    obtain ⟨hsound, hnone, -⟩ := fromClientData_spec hextent hmax hfits
    exact ⟨hsound, hnone⟩

/-- **Every layout** is sound, and what is placed on it tiles its monitors,
unless the limits let one be empty. Layouts that a client asks for are within
the limits, or a single monitor of its desktop size; a row keeps to the number
of monitors and to the extent. -/
theorem made_layouts {limits : Limits} {layout : Layout} (h : Made limits layout) :
    Sound layout ∧ (0 < limits.minSize → NoneEmpty layout) ∧
    (NoneEmpty layout → ∀ sizes : List (ℕ × ℕ), (∀ s ∈ sizes, s.1 < 2 ^ 32 ∧ s.2 < 2 ^ 32) →
      Placed layout sizes (layout.place sizes)) ∧
    (∀ monitors : List MonitorLayout, limits.maxExtent ≤ 2 ^ 31 → (∀ m ∈ monitors, m.Fits) →
      fromDisp monitors limits = .ok layout → WithinLimits limits layout) ∧
    (∀ (data : ClientData) (width height : ℕ), limits.maxExtent ≤ 2 ^ 31 →
      1 ≤ limits.maxSize ∧ limits.maxSize < 2 ^ 32 →
      (∀ monitor ∈ data.monitor, ∀ m ∈ monitor.monitors, FitsDef m) →
      layout = fromClientData data width height limits →
      WithinLimits limits layout ∨ layout = desktop data width height limits) ∧
    (∀ sizes : List (ℕ × ℕ), 1 ≤ limits.maxExtent ∧ limits.maxExtent < 2 ^ 31 → layout = row sizes limits →
      layout.monitors.length ≤ max 1 limits.maxMonitors ∧ layout.width ≤ limits.maxExtent ∧
        layout.height ≤ limits.maxExtent) := by
  obtain ⟨hsound, hnone⟩ := h.sound
  refine ⟨hsound, hnone, fun hfull sizes hsizes => place_placed hsound hfull hsizes,
    fun monitors hextent hfits heq => (fromDisp_spec hextent hfits heq).2.1,
    fun data width height hextent hmax hfits heq => ?_, fun sizes hextent heq => ?_⟩
  · rw [heq]
    exact (fromClientData_spec hextent hmax hfits).2.2
  · rw [heq]
    have hbuilt := row_built hextent sizes
    exact ⟨hbuilt.few, hbuilt.width_le, hbuilt.height_le⟩

/-- A client with two monitors, the smaller one at the left of its primary
one and below the upper edge. -/
def leftAndPrimary : List MonitorLayout :=
  [{ left := -1280, top := 56, width := 1280, height := 1024 },
    { flags := Channels.Disp.monitorPrimary, width := 1920, height := 1080 }]

def leftAndPrimaryLayout : Layout where
  monitors := [{ rect := ⟨0, 56, 1280, 1024⟩ }, { rect := ⟨1280, 0, 1920, 1080⟩, primary := true }]
  width := 3200
  height := 1080

/-- The first screen is smaller than its monitor, the second one is scaled
down to the width of its own. -/
theorem leftAndPrimary_placed : leftAndPrimaryLayout.placedScreens [(800, 600), (3840, 1200)] =
    [⟨0, 0, 800, 600⟩, ⟨1, 1, 3840, 1200⟩] := by
  have hsorted : (List.range 2).mergeSort leftAndPrimaryLayout.before = [0, 1] := mergeSort_of_pairwise (by decide)
  unfold Layout.placedScreens Layout.screenMonitors
  change (((((List.range 2).mergeSort leftAndPrimaryLayout.before).take 2).zip _).zipIdx.map _).filter _ = _
  rw [hsorted]
  decide

theorem made_layouts_leftAndPrimary :
    let output := leftAndPrimaryLayout.place [(800, 600), (3840, 1200)]
    output.screens.map (·.target) = [⟨240, 268, 800, 600⟩, ⟨1280, 240, 1920, 600⟩] ∧ output.fills.length = 6 ∧
      Sound leftAndPrimaryLayout ∧ Placed leftAndPrimaryLayout [(800, 600), (3840, 1200)] output ∧
      WithinLimits {} leftAndPrimaryLayout := by
  have hfits : ∀ m ∈ leftAndPrimary, m.Fits := by
    intro m hm
    simp only [leftAndPrimary, mem_cons, not_mem_nil, or_false] at hm
    rcases hm with rfl | rfl
    · constructor <;> first | exact ⟨by decide, by decide⟩ | decide
    · constructor <;> first | exact ⟨by decide, by decide⟩ | decide
  have hok : fromDisp leftAndPrimary {} = .ok leftAndPrimaryLayout := by decide
  obtain ⟨hsound, hnone, hplace, hwithin, -⟩ := @made_layouts {} _ (.fromDisp (by decide) hfits hok)
  refine ⟨?_, ?_, hsound, hplace (hnone (by decide)) _ (by decide), hwithin leftAndPrimary (by decide) hfits hok⟩
  · simp only [Layout.place, leftAndPrimary_placed]
    decide +kernel
  · simp only [Layout.place, Layout.uncovered, leftAndPrimary_placed]
    decide

/-- Limits bind what a client asks for, not every layout: a desktop that is
capped at the largest size may have too large an area, `single` knows no
limits, and a row has a first monitor whatever the limits. An empty monitor,
where the limits allow one, is filled with nothing; and a row as wide as half
of what 32 bits hold takes one more monitor of that width. -/
theorem layouts_beyond_limits :
    ({} : Limits).maxArea < area (fromClientData {} 8192 8192 {}) ∧
    ({} : Limits).maxExtent < (single 16385 1).width ∧
    0 < (row [(1, 1)] { maxMonitors := 0 }).monitors.length ∧
    (fromDisp [{ width := 0, height := 0 }] { minSize := 0 }).toOption.map (fun l => (l.place []).fills) =
      some [⟨0, 0, 0, 0⟩] ∧
    (row [(2 ^ 31, 1), (2 ^ 31, 1)] { maxExtent := 2 ^ 31 }).width = 0 := by
  decide

end Layouts
end Server
end Farland
