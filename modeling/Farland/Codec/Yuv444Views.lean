/-
# The views together are the picture

`split_avc444` fills all six planes (`viewsWant`), and the client's two steps
over a rectangle put back into it what the planes carry: the main view the luma
and one chroma sample for each block, the auxiliary view the samples of the odd
lines and columns over them.

Key theorems: `splitAvc444_paints`, `applyViews_paints`,
**`avc444_recombines`**.
-/
import Farland.Codec.Yuv444

namespace Farland
namespace Codec
namespace Yuv444

open Drawing List
open Channels.Rdpgfx (Rect16)

/-! ### What the views show -/

namespace Yuv444View

/-- A picture that `split_avc444` accepts. -/
structure Valid (yuv : Yuv444View) : Prop where
  width : yuv.width % 16 = 0 ∧ 0 < yuv.width
  height : yuv.height % 16 = 0 ∧ 0 < yuv.height
  stride : yuv.width ≤ yuv.stride
  planes : ∀ c, yuv.stride * yuv.height ≤ (yuv.planes c).length

variable (yuv : Yuv444View)

def sample (c : Channel) (row col : ℕ) : UInt8 := (yuv.planes c).getD (row * yuv.stride + col) 0

/-- The average of a 2x2 block. -/
def block (c : Channel) (row col : ℕ) : UInt8 :=
  average (yuv.sample c (2 * row) (2 * col)) (yuv.sample c (2 * row) (2 * col + 1))
    (yuv.sample c (2 * row + 1) (2 * col)) (yuv.sample c (2 * row + 1) (2 * col + 1))

end Yuv444View

section
variable (yuv : Yuv444View) (version : Avc444Version)

def auxWant : Channel → ℕ → ℕ → UInt8
  | .y, row, col =>
    match version with
    | .v1 => yuv.sample (if row % 16 < 8 then .u else .v) (16 * (row / 16) + 2 * (row % 8) + 1) col
    | .v2 =>
      if col < yuv.width / 2 then yuv.sample .u row (2 * col + 1)
      else yuv.sample .v row (2 * (col - yuv.width / 2) + 1)
  | c, row, col =>
    match version with
    | .v1 => yuv.sample c (2 * row) (2 * col + 1)
    | .v2 =>
      if col < yuv.width / 4 then yuv.sample .u (2 * row + 1) (4 * col + if c = .u then 0 else 2)
      else yuv.sample .v (2 * row + 1) (4 * (col - yuv.width / 4) + if c = .u then 0 else 2)

variable {row : ℕ}

theorem auxWant_v1AuxLine (col : ℕ) (hodd : row % 2 = 1) :
    auxWant yuv .v1 .y (v1AuxLine row) col = yuv.sample .u row col ∧
      auxWant yuv .v1 .y (v1AuxLine row + 8) col = yuv.sample .v row col := by
  have hu : v1AuxLine row % 16 < 8 := by unfold v1AuxLine; omega
  have hv : ¬ (v1AuxLine row + 8) % 16 < 8 := by unfold v1AuxLine; omega
  have hrow : 16 * (v1AuxLine row / 16) + 2 * (v1AuxLine row % 8) + 1 = row := by unfold v1AuxLine; omega
  have hrow' : 16 * ((v1AuxLine row + 8) / 16) + 2 * ((v1AuxLine row + 8) % 8) + 1 = row := by unfold v1AuxLine; omega
  constructor
  · simp only [auxWant, if_pos hu]
    rw [hrow]
  · simp only [auxWant, if_neg hv]
    rw [hrow']

theorem auxWant_v2_odd {col : ℕ} (hodd : col % 2 = 1) (hcol : col < yuv.width) (hw : yuv.width % 16 = 0) :
    auxWant yuv .v2 .y row (col / 2) = yuv.sample .u row col ∧
      auxWant yuv .v2 .y row (yuv.width / 2 + col / 2) = yuv.sample .v row col := by
  have hback : 2 * (col / 2) + 1 = col := by omega
  constructor
  · simp only [auxWant, if_pos (show col / 2 < yuv.width / 2 by omega), hback]
  · simp only [auxWant, Nat.add_sub_cancel_left, hback]
    rw [if_neg (by omega)]

theorem auxWant_v2_even {c : Channel} {col : ℕ} (hc : c ≠ .y) (hodd : row % 2 = 1)
    (hfirst : col % 4 = if c = .u then 0 else 2) (hcol : col < yuv.width) (hw : yuv.width % 16 = 0) :
    auxWant yuv .v2 c (row / 2) (col / 4) = yuv.sample .u row col ∧
      auxWant yuv .v2 c (row / 2) (yuv.width / 4 + col / 4) = yuv.sample .v row col := by
  have hrow : 2 * (row / 2) + 1 = row := by omega
  have hback : 4 * (col / 4) + (if c = .u then 0 else 2) = col := by omega
  have hlt : col / 4 < yuv.width / 4 := by omega
  have hge : ¬ yuv.width / 4 + col / 4 < yuv.width / 4 := by omega
  cases c with
  | y => exact absurd rfl hc
  | u | v =>
    simp only [auxWant, if_pos hlt, if_neg hge, Nat.add_sub_cancel_left, hrow]
    exact ⟨congrArg _ hback, congrArg _ hback⟩

/-- What the two frames hold after `split_avc444`. -/
def viewsWant : Plane → ℕ → ℕ → UInt8
  | (.main, .y) => yuv.sample .y
  | (.main, c) => yuv.block c
  | (.aux, c) => auxWant yuv version c

variable {yuv version}

theorem rowOf_eq (h : yuv.Valid) {c : Channel} (hrow : row < yuv.height) :
    rowOf yuv c row = some (samples yuv.width (yuv.sample c row)) := by
  have hroom : row * yuv.stride + yuv.width ≤ (yuv.planes c).length := by
    calc row * yuv.stride + yuv.width ≤ (row + 1) * yuv.stride := by
          have := h.stride
          rw [Nat.succ_mul]
          omega
      _ ≤ yuv.height * yuv.stride := Nat.mul_le_mul_right _ hrow
      _ ≤ (yuv.planes c).length := by rw [Nat.mul_comm]; exact h.planes c
  unfold rowOf subspan
  rw [if_pos hroom, Rows.take_drop_eq_map _ 0 hroom]
  rfl

/-- Frames of the picture's size. -/
abbrev framesOf (yuv : Yuv444View) : Shape Plane := frames420 (fun _ => yuv.width) fun _ => yuv.height

theorem chroma_inRow (view : View) {c : Channel} {left size : ℕ} (hc : c ≠ .y) (hrow : row < yuv.height / 2)
    (hfit : left + size ≤ yuv.width / 2) :
    Span.InRow ⟨(view, c), row * (yuv.width / 2) + left, size⟩ (framesOf yuv) row left := by
  cases c with
  | y => exact absurd rfl hc
  | u | v => exact ⟨rfl, hfit, hrow⟩

theorem luma_inRow (view : View) {left size : ℕ} (hrow : row < yuv.height) (hfit : left + size ≤ yuv.width) :
    Span.InRow ⟨(view, .y), row * yuv.width + left, size⟩ (framesOf yuv) row left := ⟨rfl, hfit, hrow⟩

theorem splitLuma_paints (h : yuv.Valid) (hrow : row < yuv.height) :
    Paints (fun p r _ => p = (.main, .y) ∧ r = row) (viewsWant yuv version)
      (splitLuma yuv row : Draw UInt8 (framesOf yuv)) := by
  refine Paints.using (rowOf_eq h hrow) ?_
  have hin := luma_inRow .main hrow (zero_add yuv.width).le
  refine (copy_paints hin rfl fun x _ => by simp [viewsWant]).congr fun p r c _ hc => ?_
  simp only [Span.cells, zero_le, zero_add, true_and]
  constructor
  · rintro ⟨rfl, rfl⟩
    exact ⟨rfl, rfl, hc⟩
  · rintro ⟨rfl, rfl, _⟩
    exact ⟨rfl, rfl⟩

/-- The cells that a pair of lines fills. -/
def pairCells (version : Avc444Version) (pair : ℕ) : Plane → ℕ → ℕ → Prop
  | (.main, .y), _, _ => False
  | (.aux, .y), row, _ => version = .v1 ∧ (row = v1AuxLine (2 * pair + 1) ∨ row = v1AuxLine (2 * pair + 1) + 8)
  | _, row, _ => row = pair

theorem splitPair_paints (h : yuv.Valid) {pair : ℕ} (hpair : pair < yuv.height / 2) :
    Paints (pairCells version pair) (viewsWant yuv version)
      (splitPair yuv version pair : Draw UInt8 (framesOf yuv)) := by
  obtain ⟨hw, _⟩ := h.width
  have hh := h.height
  have heven : 2 * pair < yuv.height := by omega
  have hodd : 2 * pair + 1 < yuv.height := by omega
  have hhalf (view : View) {c : Channel} (hc : c ≠ .y) := chroma_inRow view hc hpair (zero_add _).le
  have hn : yuv.width = 2 * (yuv.width / 2) := by omega
  have hblock (c : Channel) (x : ℕ) : average (yuv.sample c (2 * pair) (2 * x)) (yuv.sample c (2 * pair) (2 * x + 1))
      (yuv.sample c (2 * pair + 1) (2 * x)) (yuv.sample c (2 * pair + 1) (2 * x + 1)) = yuv.block c pair (0 + x) := by
    rw [zero_add]
    rfl
  refine Paints.using (rowOf_eq h heven) (Paints.using (rowOf_eq h hodd) ?_)
  refine Paints.using (rowOf_eq h heven) (Paints.using (rowOf_eq h hodd) ?_)
  cases version with
  | v1 =>
    have hline : v1AuxLine (2 * pair + 1) + 8 < yuv.height := by
      unfold v1AuxLine
      omega
    have hlines := luma_inRow .aux (Nat.lt_of_add_right_lt hline) (zero_add _).le
    have hlines' := luma_inRow .aux hline (zero_add _).le
    have hlast : 1 + 2 * (yuv.width / 2 - 1) < yuv.width := by omega
    refine ((average2x2_paints (hhalf .main (by decide)) hn fun x _ => hblock .u x).seq
      ((average2x2_paints (hhalf .main (by decide)) hn fun x _ => hblock .v x).seq ((copy_paints hlines rfl ?_).seq
        ((copy_paints hlines' rfl ?_).seq ((gather_paints (hhalf .aux (by decide)) (.inr hlast) ?_).seq
          (gather_paints (hhalf .aux (by decide)) (.inr hlast) ?_)))))).congr ?_
    · intro x _
      rw [zero_add]
      exact (auxWant_v1AuxLine yuv x (by omega)).1.symm
    · intro x _
      rw [zero_add]
      exact (auxWant_v1AuxLine yuv x (by omega)).2.symm
    · intro x _
      simp [viewsWant, auxWant, add_comm]
    · intro x _
      simp [viewsWant, auxWant, add_comm]
    · rintro ⟨view, c⟩ row col _ hcol
      cases view <;> cases c <;> simp [pairCells, Span.cells, frames420] at hcol ⊢ <;> omega
  | v2 =>
    have hq : yuv.width / 4 + (yuv.width / 2 - yuv.width / 4) ≤ yuv.width / 2 := by omega
    have hquarter {c : Channel} (hc : c ≠ .y) := chroma_inRow .aux hc hpair (show 0 + yuv.width / 4 ≤ _ by omega)
    have hquarter' {c : Channel} (hc : c ≠ .y) := chroma_inRow .aux hc hpair hq
    have hin {n first : ℕ} (hn : n ≤ yuv.width / 4) (hfirst : first < 4) :
        n = 0 ∨ first + 4 * (n - 1) < yuv.width := by
      omega
    have hleft {first : ℕ} (hfirst : first < 4) := hin (le_refl _) hfirst
    have hright {first : ℕ} (hfirst : first < 4) := hin (n := yuv.width / 2 - yuv.width / 4) (by omega) hfirst
    refine ((average2x2_paints (hhalf .main (by decide)) hn fun x _ => hblock .u x).seq
      ((average2x2_paints (hhalf .main (by decide)) hn fun x _ => hblock .v x).seq
        ((gather_paints (hquarter (by decide)) (hleft (by decide)) ?_).seq
          ((gather_paints (hquarter' (by decide)) (hright (by decide)) ?_).seq
            ((gather_paints (hquarter (by decide)) (hleft (by decide)) ?_).seq
              (gather_paints (hquarter' (by decide)) (hright (by decide)) ?_)))))).congr ?_
    · intro x hx
      simp [viewsWant, auxWant, hx]
    · intro x _
      simp [viewsWant, auxWant]
    · intro x hx
      simp [viewsWant, auxWant, hx, add_comm]
    · intro x _
      simp [viewsWant, auxWant, add_comm]
    · rintro ⟨view, c⟩ row col _ hcol
      cases view <;> cases c <;> simp [pairCells, Span.cells, frames420] at hcol ⊢ <;> omega

theorem splitLine_paints (h : yuv.Valid) (hrow : row < yuv.height) :
    Paints (fun p r _ => p = (.aux, .y) ∧ r = row) (viewsWant yuv .v2)
      (splitLine yuv row : Draw UInt8 (framesOf yuv)) := by
  have hw := h.width
  have hleft := luma_inRow .aux hrow (show 0 + yuv.width / 2 ≤ _ by omega)
  have hright := luma_inRow .aux hrow (show yuv.width / 2 + (yuv.width - yuv.width / 2) ≤ _ by omega)
  refine Paints.using (rowOf_eq h hrow) (Paints.using (rowOf_eq h hrow) ?_)
  refine ((gather_paints hleft (.inr (by simp only []; omega)) ?_).seq
    (gather_paints hright (.inr (by simp only []; omega)) ?_)).congr ?_
  · intro x hx
    simp [viewsWant, auxWant, hx, add_comm]
  · intro x _
    simp [viewsWant, auxWant, add_comm]
  · rintro ⟨view, c⟩ r col _ hcol
    cases view <;> cases c <;> simp [Span.cells, frames420] at hcol ⊢
    omega

/-- The pairs of lines fill what the other loops leave. -/
theorem pairCells_cover (h : yuv.Valid) {p : Plane} {col : ℕ} (hrow : row < (framesOf yuv).height p)
    (hmain : p ≠ (.main, .y)) (haux : p = (.aux, .y) → version = .v1) :
    ∃ pair ∈ List.range (yuv.height / 2), pairCells version pair p row col := by
  have hh := h.height
  by_cases hp : p = (.aux, .y)
  · subst hp
    have hrow : row < yuv.height := hrow
    refine ⟨8 * (row / 16) + row % 8, mem_range.mpr (by omega), haux rfl, ?_⟩
    unfold v1AuxLine
    omega
  · refine ⟨row, mem_range.mpr ?_, ?_⟩
    · obtain ⟨view, c⟩ := p
      cases c with
      | y => cases view with
        | main => exact absurd rfl hmain
        | aux => exact absurd rfl hp
      | u | v => exact hrow
    · obtain ⟨view, c⟩ := p
      cases view <;> cases c <;> simp_all [pairCells]

theorem splitAvc444_paints (h : yuv.Valid) :
    Paints (fun _ _ _ => True) (viewsWant yuv version) (splitAvc444 yuv version : Draw UInt8 (framesOf yuv)) := by
  refine Paints.using (if_pos ⟨h.width.1, h.height.1, h.width.2, h.height.2⟩) ?_
  refine Paints.using (if_pos ⟨rfl, rfl⟩) (Paints.using (if_pos ⟨rfl, rfl⟩) ?_)
  refine Paints.using (if_pos ⟨h.stride, h.planes _⟩) (Paints.using (if_pos ⟨h.planes _, h.planes _⟩) ?_)
  refine ((Paints.each fun row hrow => splitLuma_paints h (mem_range.mp hrow)).seq
    ((Paints.each fun pair hpair => splitPair_paints h (mem_range.mp hpair)).seq
      (T := fun p _ _ => version = .v2 ∧ p = (.aux, .y)) ?_)).congr fun p row col hrow _ => iff_of_true trivial ?_
  · cases version with
    | v1 => exact Paints.none.congr fun p row col _ _ => by simp
    | v2 =>
      refine (Paints.each fun row hrow => splitLine_paints h (mem_range.mp hrow)).congr fun p row col hrow _ => ?_
      constructor
      · rintro ⟨_, rfl⟩
        exact ⟨row, mem_range.mpr hrow, rfl, rfl⟩
      · rintro ⟨_, _, hp, _⟩
        exact ⟨rfl, hp⟩
  · by_cases hmain : p = (.main, .y)
    · subst hmain
      exact .inl ⟨row, mem_range.mpr hrow, rfl, rfl⟩
    · refine .inr ?_
      by_cases haux : version = .v2 ∧ p = (.aux, .y)
      · exact .inr haux
      · refine .inl (pairCells_cover h hrow hmain fun hp => ?_)
        cases version with
        | v1 => rfl
        | v2 => exact absurd ⟨rfl, hp⟩ haux

/-! ### What the client draws -/

/-- A rectangle that `check_rect` accepts. -/
structure Inside (rect : Rect16) (width height : ℕ) : Prop where
  filled : rect.left < rect.right ∧ rect.top < rect.bottom
  fits : rect.right ≤ width ∧ rect.bottom ≤ height
  even : rect.left % 2 = 0 ∧ rect.top % 2 = 0

def Contains (rect : Rect16) (row col : ℕ) : Prop :=
  rect.top ≤ row ∧ row < rect.bottom ∧ rect.left ≤ col ∧ col < rect.right

/-- What the main view shows: each chroma sample over its block. -/
def mainWant (yuv : Yuv444View) : Channel → ℕ → ℕ → UInt8
  | .y, row, col => yuv.sample .y row col
  | c, row, col => yuv.block c (row / 2) (col / 2)

variable {views : Planes UInt8 (framesOf yuv)} {rect : Rect16}

/-- Frames that hold the views of the picture. -/
def Holds (yuv : Yuv444View) (version : Avc444Version) (views : Planes UInt8 (framesOf yuv)) : Prop :=
  ∀ p row col, row < (framesOf yuv).height p → col < (framesOf yuv).stride p →
    views.at p row col = some (viewsWant yuv version p row col)

/-- A drawing of each row of a rectangle. -/
theorem paints_rows {S : Channel → ℕ → ℕ → Prop} {w : Channel → ℕ → ℕ → UInt8}
    {f : ℕ → Draw UInt8 (frame444 yuv.width yuv.height)}
    (hf : ∀ row, rect.top ≤ row → row < rect.bottom →
      Paints (fun p r c => S p r c ∧ r = row ∧ rect.left ≤ c ∧ c < rect.right) w (f row)) :
    Paints (fun p r c => S p r c ∧ Contains rect r c) w (each (List.range' rect.top (rect.bottom - rect.top)) f) := by
  refine (Paints.each (R := fun row p r c => S p r c ∧ r = row ∧ rect.left ≤ c ∧ c < rect.right)
    fun row hrow => ?_).congr fun p r c _ _ => ?_
  · have := mem_range'_1.mp hrow
    exact hf row this.1 (by omega)
  · constructor
    · rintro ⟨hS, hlo, hhi, hcol⟩
      exact ⟨r, mem_range'_1.mpr (by omega), hS, rfl, hcol⟩
    · rintro ⟨row, hrow, hS, rfl, hcol⟩
      have := mem_range'_1.mp hrow
      exact ⟨hS, this.1, by omega, hcol⟩

theorem checkSameSize_viewOf (view : View) :
    checkSameSize (viewOf views view) yuv.width yuv.height = some () := by
  have hsize (c : Channel) := views.length_plane (view, c)
  simp [checkSameSize, viewOf, hsize, frames420, mul_comm]

theorem checkRect_of_inside (hrect : Inside rect yuv.width yuv.height) :
    checkRect rect yuv.width yuv.height = some () := by
  simp [checkRect, hrect.filled, hrect.fits, hrect.even]

theorem view_row (hviews : Holds yuv version views) (p : Plane) (left : ℕ) {n : ℕ}
    (hrow : row < (framesOf yuv).height p) (hfit : left + n ≤ (framesOf yuv).stride p) :
    subspan ((viewOf views p.1).planes p.2) (row * (framesOf yuv).stride p + left) n =
      some (samples n fun x => viewsWant yuv version p row (left + x)) :=
  subspan_row hrow hfit fun c hc => hviews p row c hrow hc

theorem rect_inRow (hrect : Inside rect yuv.width yuv.height) (hbottom : row < rect.bottom) (c : Channel) :
    Span.InRow ⟨c, row * yuv.width + rect.left, rect.right - rect.left⟩ (frame444 yuv.width yuv.height) row
      rect.left where
  start := rfl
  fit := by
    have := hrect.filled
    have := hrect.fits
    simp only [frame444]
    omega
  row := lt_of_lt_of_le hbottom hrect.fits.2

section
variable (h : yuv.Valid) (hviews : Holds yuv version views) (hrect : Inside rect yuv.width yuv.height) {row : ℕ}
  (hbottom : row < rect.bottom)
include h hviews hrect hbottom

theorem applyMainRow_paints :
    Paints (fun _ r c => r = row ∧ rect.left ≤ c ∧ c < rect.right) (mainWant yuv)
      (applyMainRow (viewOf views .main) rect row : Draw UInt8 (frame444 yuv.width yuv.height)) := by
  have hdst := rect_inRow hrect hbottom
  have hrow := (hdst .y).row
  have hfit := (hdst .y).fit
  obtain ⟨⟨hwide, _⟩, ⟨hright, hrows⟩, heven, _⟩ := hrect
  have hw := h.width
  have hh := h.height
  have hhalf : row / 2 < yuv.height / 2 := by omega
  have hchroma : rect.left / 2 + (rect.right - rect.left + 1) / 2 ≤ yuv.width / 2 := by omega
  refine Paints.using (view_row hviews (.main, .y) _ hrow hfit) ?_
  have hu := view_row hviews (.main, .u) _ hhalf hchroma
  have hv := view_row hviews (.main, .v) _ hhalf hchroma
  refine Paints.congr ((copy_paints (hdst .y) rfl fun x _ => rfl).seq (Paints.using hu (Paints.using hv (Paints.each
      (R := fun x p r c => p ≠ .y ∧ r = row ∧ c = rect.left + x) fun x hx => ?_)))) ?_
  · have hx := mem_range.mp hx
    have hcol : rect.left / 2 + x / 2 = (rect.left + x) / 2 := by omega
    refine Paints.using (getElem?_samples (by omega)) (Paints.congr ((Paints.store (hdst .u) hx ?_).seq
      (Paints.using (getElem?_samples (by omega)) (Paints.store (hdst .v) hx ?_))) ?_)
    · rw [hcol]
      rfl
    · rw [hcol]
      rfl
    · rintro p r c _ _
      cases p <;> simp
  · rintro p r c _ _
    constructor
    · rintro ⟨hr, hlo, hhi⟩
      by_cases hp : p = .y
      · exact .inl ⟨hp, hr, hlo, by simp only []; omega⟩
      · exact .inr ⟨c - rect.left, mem_range.mpr (by omega), hp, hr, by omega⟩
    · rintro (⟨_, hr, hlo, hhi⟩ | ⟨x, hx, _, hr, hc⟩)
      · exact ⟨hr, hlo, by simp only [] at hhi; omega⟩
      · have := mem_range.mp hx
        exact ⟨hr, by omega, by omega⟩

/-- The samples that the auxiliary view carries. -/
def AuxCarries (p : Channel) (row col : ℕ) : Prop := p ≠ .y ∧ (row % 2 = 1 ∨ col % 2 = 1)

theorem applyAuxRow_v1 (hv : version = .v1) :
    Paints (fun p r c => AuxCarries p r c ∧ r = row ∧ rect.left ≤ c ∧ c < rect.right) yuv.sample
      (applyAuxRow (viewOf views .aux) version rect row : Draw UInt8 (frame444 yuv.width yuv.height)) := by
  subst hv
  have hdst := rect_inRow hrect hbottom
  have hfit := (hdst .y).fit
  obtain ⟨⟨hwide, _⟩, ⟨hright, hrows⟩, heven, _⟩ := hrect
  have hh := h.height
  unfold applyAuxRow
  by_cases hodd : row % 2 ≠ 0
  · simp only [if_pos hodd]
    have hline : v1AuxLine row + 8 < yuv.height := by
      unfold v1AuxLine
      omega
    refine Paints.using (view_row hviews (.aux, .y) _ (Nat.lt_of_add_right_lt hline) hfit) ?_
    refine Paints.congr ((copy_paints (hdst .u) rfl fun x _ => ?_).seq
      (Paints.using (view_row hviews (.aux, .y) _ hline hfit) (copy_paints (hdst .v) rfl fun x _ => ?_))) ?_
    · exact (auxWant_v1AuxLine yuv _ (by omega)).1
    · exact (auxWant_v1AuxLine yuv _ (by omega)).2
    · rintro p r c _ _
      cases p <;> simp [AuxCarries, Span.cells] <;> omega
  · simp only [if_neg hodd]
    have hhalf : row / 2 < yuv.height / 2 := by omega
    have hchroma : rect.left / 2 + (rect.right - rect.left) / 2 ≤ yuv.width / 2 := by omega
    have hsample (c : Channel) (x : ℕ) : yuv.sample c (2 * (row / 2)) (2 * (rect.left / 2 + x) + 1) =
        yuv.sample c row (rect.left + (2 * x + 1)) := by
      congr 1 <;> omega
    refine Paints.using (view_row hviews (.aux, .u) _ hhalf hchroma) ?_
    refine Paints.congr ((scatter_odd (hdst .u) fun x _ => hsample .u x).seq
      (Paints.using (view_row hviews (.aux, .v) _ hhalf hchroma) (scatter_odd (hdst .v) fun x _ => hsample .v x))) ?_
    rintro p r c _ _
    cases p <;> simp [AuxCarries, Span.cells] <;> omega

theorem applyAuxRow_v2 (hv : version = .v2) :
    Paints (fun p r c => AuxCarries p r c ∧ r = row ∧ rect.left ≤ c ∧ c < rect.right) yuv.sample
      (applyAuxRow (viewOf views .aux) version rect row : Draw UInt8 (frame444 yuv.width yuv.height)) := by
  subst hv
  have hdst := rect_inRow hrect hbottom
  have hrow := (hdst .y).row
  obtain ⟨⟨hwide, _⟩, ⟨hright, hrows⟩, heven, _⟩ := hrect
  have hw := h.width
  -- the odd columns of every line, from the halves of the Y plane
  have hhalves : ∀ x < (rect.right - rect.left) / 2, viewsWant yuv .v2 (.aux, .y) row (0 + (rect.left / 2 + x)) =
        yuv.sample .u row (rect.left + (2 * x + 1)) ∧
      viewsWant yuv .v2 (.aux, .y) row (0 + (yuv.width / 2 + rect.left / 2 + x)) =
        yuv.sample .v row (rect.left + (2 * x + 1)) := by
    intro x hx
    have hcol : rect.left / 2 + x = (rect.left + (2 * x + 1)) / 2 := by omega
    rw [zero_add, zero_add, add_assoc, hcol]
    exact auxWant_v2_odd yuv (by omega) (by omega) hw.1
  have hline := view_row hviews (.aux, .y) 0 hrow (zero_add yuv.width).le
  have hright : yuv.width / 2 + rect.left / 2 + (rect.right - rect.left) / 2 ≤ yuv.width := by omega
  refine Paints.using hline (Paints.using (subspan_samples (by omega)) ?_)
  refine Paints.congr ((scatter_odd (hdst .u) fun x hx => (hhalves x hx).1).seq
    (Paints.using (subspan_samples hright) ((scatter_odd (hdst .v) fun x hx => (hhalves x hx).2).seq
      (T := fun p r c => p ≠ .y ∧ r = row ∧ r % 2 = 1 ∧ rect.left ≤ c ∧ c < rect.right ∧ c % 2 = 0) ?_))) ?_
  · by_cases hodd : row % 2 ≠ 0
    · simp only [if_pos hodd]
      have hhalf : row / 2 < yuv.height / 2 := by omega
      have hu := view_row hviews (.aux, .u) 0 hhalf (zero_add (yuv.width / 2)).le
      have hv := view_row hviews (.aux, .v) 0 hhalf (zero_add (yuv.width / 2)).le
      refine Paints.using hu (Paints.using hv ?_)
      refine (Paints.each (R := fun k p r c => p ≠ .y ∧ r = row ∧ c = rect.left + 2 * k) fun k hk => ?_).congr ?_
      · have hk := mem_range.mp hk
        have hback : rect.left + (rect.left + 2 * k - rect.left) = rect.left + 2 * k := by omega
        -- the even columns of the odd line, from the quarters of one plane
        have hsource : ∃ c : Channel, c ≠ .y ∧ ((rect.left + 2 * k) % 4 = if c = .u then 0 else 2) ∧
            (if (rect.left + 2 * k) % 4 = 0 then
                samples (yuv.width / 2) fun x => viewsWant yuv .v2 (.aux, .u) (row / 2) (0 + x)
              else samples (yuv.width / 2) fun x => viewsWant yuv .v2 (.aux, .v) (row / 2) (0 + x)) =
            samples (yuv.width / 2) fun x => auxWant yuv .v2 c (row / 2) (0 + x) := by
          by_cases hx : (rect.left + 2 * k) % 4 = 0
          · exact ⟨.u, by decide, hx, by rw [if_pos hx]; rfl⟩
          · exact ⟨.v, by decide, show _ = 2 by omega, by rw [if_neg hx]; rfl⟩
        obtain ⟨c, hc, hfirst, hsource⟩ := hsource
        obtain ⟨hsu, hsv⟩ := auxWant_v2_even yuv hc (show row % 2 = 1 by omega) hfirst (by omega) hw.1
        have hat {j : ℕ} (hj : j < yuv.width / 2) :=
          hsource ▸ getElem?_samples (f := fun x => auxWant yuv .v2 c (row / 2) (0 + x)) hj
        refine Paints.congr (Paints.using (hat (by omega)) ((Paints.store (hdst .u) (by simp only []; omega) ?_).seq
          (Paints.using (hat (by simp only [viewOf]; omega)) (Paints.store (hdst .v) (by simp only []; omega) ?_)))) ?_
        · rw [hback, zero_add, hsu]
        · rw [hback, zero_add]
          exact hsv
        · rintro p r c _ _
          cases p <;> simp
      · rintro p r c _ _
        constructor
        · rintro ⟨hp, hr, _, hlo, hhi, hceven⟩
          exact ⟨(c - rect.left) / 2, mem_range.mpr (by omega), hp, hr, by omega⟩
        · rintro ⟨k, hk, hp, hr, hc⟩
          have := mem_range.mp hk
          exact ⟨hp, hr, by omega, by omega, by omega, by omega⟩
    · simp only [if_neg hodd]
      exact Paints.none.congr fun p r c _ _ => by simp only [iff_false]; omega
  · rintro p r c _ _
    cases p <;> simp [AuxCarries, Span.cells] <;> omega

end

theorem applyMainView_paints (h : yuv.Valid) (hviews : Holds yuv version views)
    (hrect : Inside rect yuv.width yuv.height) :
    Paints (fun _ r c => Contains rect r c) (mainWant yuv)
      (applyMainView (viewOf views .main) rect : Draw UInt8 (frame444 yuv.width yuv.height)) := by
  refine Paints.using (checkSameSize_viewOf .main) (Paints.using (checkRect_of_inside hrect) ?_)
  refine (paints_rows (S := fun _ _ _ => True) fun row _ hrow => ?_).congr fun p r c _ _ => by simp
  exact (applyMainRow_paints h hviews hrect hrow).congr fun p r c _ _ => by simp

theorem applyAuxView_paints (h : yuv.Valid) (hviews : Holds yuv version views)
    (hrect : Inside rect yuv.width yuv.height) :
    Paints (fun p r c => AuxCarries p r c ∧ Contains rect r c) yuv.sample
      (applyAuxView (viewOf views .aux) version rect : Draw UInt8 (frame444 yuv.width yuv.height)) := by
  refine Paints.using (checkSameSize_viewOf .aux) (Paints.using (checkRect_of_inside hrect) ?_)
  refine Paints.using (if_pos ⟨h.width.1, h.height.1⟩) (paints_rows fun row _ hrow => ?_)
  cases hv : version with
  | v1 => exact hv ▸ applyAuxRow_v1 h hviews hrect hrow hv
  | v2 => exact hv ▸ applyAuxRow_v2 h hviews hrect hrow hv

/-- Both views of a rectangle, the main one first. -/
def applyViews {width height : ℕ} (main aux : Yuv420View) (version : Avc444Version) (rect : Rect16) :
    Draw UInt8 (frame444 width height) := fun s =>
  applyMainView main rect s >>= applyAuxView aux version rect

/-- The picture, but for the chroma of the even columns of even lines. -/
def recombined (yuv : Yuv444View) (c : Channel) (row col : ℕ) : UInt8 :=
  if c = .y ∨ row % 2 = 1 ∨ col % 2 = 1 then yuv.sample c row col
  else average (yuv.sample c row col) (yuv.sample c row (col + 1)) (yuv.sample c (row + 1) col)
    (yuv.sample c (row + 1) (col + 1))

theorem applyViews_paints (h : yuv.Valid) (hviews : Holds yuv version views)
    (hrect : Inside rect yuv.width yuv.height) :
    Paints (fun _ r c => Contains rect r c) (recombined yuv) (applyViews (viewOf views .main) (viewOf views .aux)
      version rect : Draw UInt8 (frame444 yuv.width yuv.height)) := by
  refine ((applyMainView_paints h hviews hrect).over (applyAuxView_paints h hviews hrect) ?_ ?_).congr
    fun p r c _ _ => ?_
  · rintro p row col ⟨⟨_, hodd⟩, _⟩
    exact if_pos (.inr hodd)
  · intro p row col hin hno
    have hback (n : ℕ) (hn : ¬ n % 2 = 1) : 2 * (n / 2) = n := by omega
    have hkept (hp : p ≠ .y) : recombined yuv p row col = yuv.block p (row / 2) (col / 2) := by
      have hodd : ¬ (row % 2 = 1 ∨ col % 2 = 1) := fun hodd => hno ⟨⟨hp, hodd⟩, hin⟩
      obtain ⟨hrow, hcol⟩ := not_or.mp hodd
      unfold recombined Yuv444View.block
      rw [if_neg (not_or.mpr ⟨hp, hodd⟩), hback row hrow, hback col hcol]
    cases p with
    | y => exact if_pos (.inl rfl)
    | u | v => exact hkept (by decide)
  · exact ⟨Or.inl, fun hor => hor.elim id And.right⟩

/-- **The views together are the picture.** Of every picture, with both
versions and whatever the frames had in them, the split succeeds and its views
fill each rectangle of each frame with the picture's samples, but for the chroma
of the even columns of even lines, which is the average of the block, and leave
the rest alone. Rectangles that cover the picture fill it, one after the other,
as the whole of it does at once. -/
theorem avc444_recombines (yuv : Yuv444View) (h : yuv.Valid) (version : Avc444Version)
    (frames : Yuv420Frames (fun _ => yuv.width) fun _ => yuv.height) :
    ∃ views : Yuv420Frames (fun _ => yuv.width) fun _ => yuv.height, splitAvc444 yuv version frames = some views ∧
      (∀ rect, Inside rect yuv.width yuv.height → ∀ out : Yuv444Frame yuv.width yuv.height,
        ∃ out' : Yuv444Frame yuv.width yuv.height,
          applyViews (viewOf views .main) (viewOf views .aux) version rect out = some out' ∧
            ∀ c row col, row < yuv.height → col < yuv.width →
              (Contains rect row col → out'.at c row col = some (recombined yuv c row col)) ∧
                (¬ Contains rect row col → out'.at c row col = out.at c row col)) ∧
      ∀ rects : List Rect16, (∀ rect ∈ rects, Inside rect yuv.width yuv.height) →
        (∀ row col, row < yuv.height → col < yuv.width → ∃ rect ∈ rects, Contains rect row col) →
        ∀ out : Yuv444Frame yuv.width yuv.height,
          each rects (applyViews (viewOf views .main) (viewOf views .aux) version) out =
            applyViews (viewOf views .main) (viewOf views .aux) version ⟨0, 0, yuv.width, yuv.height⟩ out := by
  obtain ⟨views, hsplit, hviews⟩ := splitAvc444_paints h frames
  have hviews : Holds yuv version views := fun p row col hrow hcol => (hviews p row col hrow hcol).1 trivial
  refine ⟨views, hsplit, fun rect hrect => applyViews_paints h hviews hrect, fun rects hrects hcover out => ?_⟩
  have hwhole : Inside ⟨0, 0, yuv.width, yuv.height⟩ yuv.width yuv.height :=
    ⟨⟨h.width.2, h.height.2⟩, ⟨Nat.le_refl _, Nat.le_refl _⟩, rfl, rfl⟩
  have hone := applyViews_paints h hviews hwhole
  refine Paints.eq ((Paints.each fun rect hrect => applyViews_paints h hviews (hrects rect hrect)).congr ?_) hone out
  intro p row col hrow hcol
  exact iff_of_true ⟨Nat.zero_le _, hrow, Nat.zero_le _, hcol⟩ (hcover row col hrow hcol)

/-- Sixteen lines of sixteen samples, each plane with its own. -/
def ramps : Yuv444View :=
  ⟨fun c => (List.range 256).map fun i => UInt8.ofNat (if c = .v then 255 - i else i), 16, 16, 16⟩

def blankFrames : Yuv420Frames (fun _ => ramps.width) fun _ => ramps.height where
  plane p := List.replicate ((framesOf ramps).height p * (framesOf ramps).stride p) 0
  length_plane _ := length_replicate

/-- A rectangle with odd edges, and two that overlap and cover the picture. -/
theorem avc444_recombines_ramps : ∃ views, splitAvc444 ramps .v2 blankFrames = some views ∧
    ∀ out : Yuv444Frame 16 16, (∃ out' : Yuv444Frame 16 16,
      applyViews (viewOf views .main) (viewOf views .aux) .v2 ⟨2, 4, 7, 9⟩ out = some out' ∧
        out'.at .v 5 6 = some 169 ∧ out'.at .u 4 6 = some 79 ∧ out'.at .u 9 6 = out.at .u 9 6) ∧
      each [⟨0, 0, 16, 9⟩, ⟨0, 6, 16, 16⟩] (applyViews (viewOf views .main) (viewOf views .aux) .v2) out =
        applyViews (viewOf views .main) (viewOf views .aux) .v2 ⟨0, 0, 16, 16⟩ out := by
  have hvalid : ramps.Valid := ⟨by decide, by decide, by decide, fun _ => by simp [ramps]⟩
  obtain ⟨views, hsplit, hone, hcover⟩ := avc444_recombines ramps hvalid .v2 blankFrames
  refine ⟨views, hsplit, fun out => ⟨?_, ?_⟩⟩
  · obtain ⟨out', happly, hcells⟩ := hone ⟨2, 4, 7, 9⟩ ⟨by decide, by decide, by decide⟩ out
    have hv := (hcells .v 5 6 (by decide) (by decide)).1 ⟨by decide, by decide, by decide, by decide⟩
    have hu := (hcells .u 4 6 (by decide) (by decide)).1 ⟨by decide, by decide, by decide, by decide⟩
    have hbelow := (hcells .u 9 6 (by decide) (by decide)).2 fun hin => absurd hin.2.1 (by decide)
    exact ⟨out', happly, hv.trans (by decide +kernel), hu.trans (by decide +kernel), hbelow⟩
  · refine hcover _ (fun rect hrect => ?_) (fun row col hrow hcol => ?_) out
    · obtain rfl | rfl : rect = ⟨0, 0, 16, 9⟩ ∨ rect = ⟨0, 6, 16, 16⟩ := by simpa using hrect
      · exact ⟨by decide, by decide, by decide⟩
      · exact ⟨by decide, by decide, by decide⟩
    · change row < 16 at hrow
      change col < 16 at hcol
      by_cases htop : row < 9
      · exact ⟨⟨0, 0, 16, 9⟩, by simp, Nat.zero_le _, htop, Nat.zero_le _, hcol⟩
      · exact ⟨⟨0, 6, 16, 16⟩, by simp, show 6 ≤ row by omega, hrow, Nat.zero_le _, hcol⟩

end
end Yuv444
end Codec
end Farland
