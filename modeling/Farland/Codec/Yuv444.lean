/-
# The two views of a 4:4:4 picture

`codec/yuv444.cpp`: for AVC444 a picture in full resolution travels as two
4:2:0 pictures of its size. The main view has the luma and the average of the
chroma of each 2x2 block, the auxiliary view the other chroma samples, packed
in a way of each version; the client draws them into one frame, a rectangle at
a time. `FARLAND_ASSERT` and an index out of range give `none`.

`average2x2_paints`, `gather_paints` and `scatter_odd` say what the loops over
a row write.
-/
import Farland.Channels.Rdpgfx.Pdu
import Farland.Lib.Drawing
import Farland.Lib.Rows

namespace Farland
namespace Codec
namespace Yuv444

open Drawing List
open Channels.Rdpgfx (Rect16)

inductive Avc444Version where
  | v1
  | v2
  deriving DecidableEq

inductive Channel where
  | y
  | u
  | v
  deriving DecidableEq

structure Yuv444View where
  planes : Channel → List UInt8
  width : ℕ
  height : ℕ
  stride : ℕ

structure Yuv420View where
  planes : Channel → List UInt8
  width : ℕ
  height : ℕ
  yStride : ℕ
  uvStride : ℕ

def frame444 (width height : ℕ) : Shape Channel := ⟨fun _ => width, fun _ => height⟩

/-- A 4:4:4 picture with tightly packed planes. -/
abbrev Yuv444Frame (width height : ℕ) := Planes UInt8 (frame444 width height)

inductive View where
  | main
  | aux
  deriving DecidableEq

/-- A plane of one of the two 4:2:0 frames. -/
abbrev Plane := View × Channel

def frames420 (width height : View → ℕ) : Shape Plane where
  stride
    | (view, .y) => width view
    | (view, _) => width view / 2
  height
    | (view, .y) => height view
    | (view, _) => height view / 2

/-- The main and the auxiliary frame, `Yuv420Frame`s with sizes of their own. -/
abbrev Yuv420Frames (width height : View → ℕ) := Planes UInt8 (frames420 width height)

/-- `Yuv420Frame::view`. -/
def viewOf {width height : View → ℕ} (frames : Yuv420Frames width height) (view : View) : Yuv420View where
  planes c := frames.plane (view, c)
  width := width view
  height := height view
  yStride := width view
  uvStride := width view / 2

/-! ### Rows of samples -/

/-- `plane.subspan(start, size)`. -/
def subspan (plane : List UInt8) (start size : ℕ) : Option (List UInt8) :=
  if start + size ≤ plane.length then some ((plane.drop start).take size) else none

section
variable {ι : Type} [DecidableEq ι] {shape : Shape ι}

/-- `std::ranges::copy`. -/
def copy (src : List UInt8) (dst : Span ι) : Draw UInt8 shape :=
  each (List.range src.length) fun x s => src[x]? >>= fun a => store dst x a s

/-- The rounded average of the 2x2 block at column 2x of two rows. -/
def average2x2 (a b : List UInt8) (dst : Span ι) : Draw UInt8 shape := fun s => do
  guard (a.length = 2 * dst.size ∧ b.length = 2 * dst.size)
  each (List.range dst.size) (fun x s => do
    let sum := (← a[2 * x]?).toNat + (← a[2 * x + 1]?).toNat + (← b[2 * x]?).toNat + (← b[2 * x + 1]?).toNat
    store dst x (UInt8.ofNat ((sum + 2) >>> 2)) s) s

/-- `dst[x] = src[first + step * x]`. -/
def gather (src : List UInt8) (first step : ℕ) (dst : Span ι) : Draw UInt8 shape := fun s => do
  guard (dst.size = 0 ∨ first + step * (dst.size - 1) < src.length)
  each (List.range dst.size) (fun x s => do store dst x (← src[first + step * x]?) s) s

/-- `dst[i] = src[x]` with `i` in steps, for every `i` inside `dst`. -/
def scatter (dst : Span ι) (step : ℕ) : List UInt8 → ℕ → Draw UInt8 shape
  | [], _ => some
  | a :: src, i => if i < dst.size then fun s => store dst i a s >>= scatter dst step src (i + step) else some

end

/-- The line of the v1 auxiliary view with the U samples of an odd line; the V
samples follow 8 lines further down. -/
def v1AuxLine (row : ℕ) : ℕ := 16 * (row / 2 / 8) + row / 2 % 8

/-! ### `split_avc444` -/

section
variable {width height : View → ℕ} (yuv : Yuv444View)

def rowOf (c : Channel) (row : ℕ) : Option (List UInt8) := subspan (yuv.planes c) (row * yuv.stride) yuv.width

def splitPair (version : Avc444Version) (pair : ℕ) : Draw UInt8 (frames420 width height) := fun s => do
  let half := yuv.width / 2
  let quarter := yuv.width / 4
  let u0 ← rowOf yuv .u (2 * pair)
  let u1 ← rowOf yuv .u (2 * pair + 1)
  let v0 ← rowOf yuv .v (2 * pair)
  let v1 ← rowOf yuv .v (2 * pair + 1)
  -- B2, B3
  let s ← average2x2 u0 u1 ⟨(.main, .u), pair * half, half⟩ s
  let s ← average2x2 v0 v1 ⟨(.main, .v), pair * half, half⟩ s
  match version with
  | .v1 =>
    -- B4, B5, then B6, B7
    let line := v1AuxLine (2 * pair + 1)
    let s ← copy u1 ⟨(.aux, .y), line * yuv.width, yuv.width⟩ s
    let s ← copy v1 ⟨(.aux, .y), (line + 8) * yuv.width, yuv.width⟩ s
    let s ← gather u0 1 2 ⟨(.aux, .u), pair * half, half⟩ s
    gather v0 1 2 ⟨(.aux, .v), pair * half, half⟩ s
  | .v2 =>
    -- B6 to B9
    let s ← gather u1 0 4 ⟨(.aux, .u), pair * half, quarter⟩ s
    let s ← gather v1 0 4 ⟨(.aux, .u), pair * half + quarter, half - quarter⟩ s
    let s ← gather u1 2 4 ⟨(.aux, .v), pair * half, quarter⟩ s
    gather v1 2 4 ⟨(.aux, .v), pair * half + quarter, half - quarter⟩ s

/-- B4 and B5 of v2. -/
def splitLine (row : ℕ) : Draw UInt8 (frames420 width height) := fun s => do
  let half := yuv.width / 2
  let u ← rowOf yuv .u row
  let v ← rowOf yuv .v row
  let s ← gather u 1 2 ⟨(.aux, .y), row * yuv.width, half⟩ s
  gather v 1 2 ⟨(.aux, .y), row * yuv.width + half, yuv.width - half⟩ s

/-- B1. -/
def splitLuma (row : ℕ) : Draw UInt8 (frames420 width height) := fun s => do
  copy (← rowOf yuv .y row) ⟨(.main, .y), row * yuv.width, yuv.width⟩ s

def splitAvc444 (version : Avc444Version) : Draw UInt8 (frames420 width height) := fun s => do
  guard (yuv.width % 16 = 0 ∧ yuv.height % 16 = 0 ∧ 0 < yuv.width ∧ 0 < yuv.height)
  guard (width .main = yuv.width ∧ height .main = yuv.height)
  guard (width .aux = yuv.width ∧ height .aux = yuv.height)
  guard (yuv.width ≤ yuv.stride ∧ yuv.stride * yuv.height ≤ (yuv.planes .y).length)
  guard (yuv.stride * yuv.height ≤ (yuv.planes .u).length ∧ yuv.stride * yuv.height ≤ (yuv.planes .v).length)
  let s ← each (List.range yuv.height) (splitLuma yuv) s
  let s ← each (List.range (yuv.height / 2)) (splitPair yuv version) s
  match version with
  | .v1 => some s
  | .v2 => each (List.range yuv.height) (splitLine yuv) s

end

/-! ### `apply_main_view` and `apply_aux_view` -/

section
variable {outWidth outHeight : ℕ}

def checkSameSize (picture : Yuv420View) (outWidth outHeight : ℕ) : Option Unit := do
  guard (picture.width = outWidth ∧ picture.height = outHeight)
  guard (picture.width ≤ picture.yStride ∧ picture.width / 2 ≤ picture.uvStride)
  guard (picture.yStride * picture.height ≤ (picture.planes .y).length)
  guard (picture.uvStride * (picture.height / 2) ≤ (picture.planes .u).length)
  guard (picture.uvStride * (picture.height / 2) ≤ (picture.planes .v).length)

def checkRect (rect : Rect16) (outWidth outHeight : ℕ) : Option Unit := do
  guard (rect.left < rect.right ∧ rect.top < rect.bottom)
  guard (rect.right ≤ outWidth ∧ rect.bottom ≤ outHeight)
  guard (rect.left % 2 = 0 ∧ rect.top % 2 = 0)

def applyMainRow (main : Yuv420View) (rect : Rect16) (row : ℕ) : Draw UInt8 (frame444 outWidth outHeight) := fun s => do
  let width := rect.right - rect.left
  let chromaWidth := (width + 1) / 2
  let offset := row * outWidth + rect.left
  let luma ← subspan (main.planes .y) (row * main.yStride + rect.left) width
  let s ← copy luma ⟨.y, offset, width⟩ s
  let chroma := row / 2 * main.uvStride + rect.left / 2
  let uSrc ← subspan (main.planes .u) chroma chromaWidth
  let vSrc ← subspan (main.planes .v) chroma chromaWidth
  each (List.range width) (fun x s => do
    let s ← store ⟨.u, offset, width⟩ x (← uSrc[x / 2]?) s
    store ⟨.v, offset, width⟩ x (← vSrc[x / 2]?) s) s

def applyMainView (main : Yuv420View) (rect : Rect16) : Draw UInt8 (frame444 outWidth outHeight) := fun s => do
  checkSameSize main outWidth outHeight
  checkRect rect outWidth outHeight
  each (List.range' rect.top (rect.bottom - rect.top)) (applyMainRow main rect) s

def applyAuxRow (aux : Yuv420View) (version : Avc444Version) (rect : Rect16) (row : ℕ) :
    Draw UInt8 (frame444 outWidth outHeight) := fun s => do
  let left := rect.left
  let width := rect.right - left
  let half := aux.width / 2
  let quarter := aux.width / 4
  let uDst : Span Channel := ⟨.u, row * outWidth + left, width⟩
  let vDst : Span Channel := ⟨.v, row * outWidth + left, width⟩
  match version with
  | .v1 =>
    if row % 2 ≠ 0 then do
      -- B4, B5
      let line := v1AuxLine row
      let s ← copy (← subspan (aux.planes .y) (line * aux.yStride + left) width) uDst s
      copy (← subspan (aux.planes .y) ((line + 8) * aux.yStride + left) width) vDst s
    else do
      -- B6, B7 into the odd columns
      let chroma := row / 2 * aux.uvStride + left / 2
      let s ← scatter uDst 2 (← subspan (aux.planes .u) chroma (width / 2)) 1 s
      scatter vDst 2 (← subspan (aux.planes .v) chroma (width / 2)) 1 s
  | .v2 => do
    -- B4 and B5 into the odd columns of every line
    let line ← subspan (aux.planes .y) (row * aux.yStride) aux.width
    let s ← scatter uDst 2 (← subspan line (left / 2) (width / 2)) 1 s
    let s ← scatter vDst 2 (← subspan line (half + left / 2) (width / 2)) 1 s
    if row % 2 ≠ 0 then do
      -- B6 to B9 into the even columns
      let uLine ← subspan (aux.planes .u) (row / 2 * aux.uvStride) half
      let vLine ← subspan (aux.planes .v) (row / 2 * aux.uvStride) half
      each (List.range ((width + 1) / 2)) (fun k s => do
        let x := left + 2 * k
        let source := if x % 4 = 0 then uLine else vLine
        let s ← store uDst (x - left) (← source[x / 4]?) s
        store vDst (x - left) (← source[quarter + x / 4]?) s) s
    else some s

def applyAuxView (aux : Yuv420View) (version : Avc444Version) (rect : Rect16) :
    Draw UInt8 (frame444 outWidth outHeight) := fun s => do
  checkSameSize aux outWidth outHeight
  checkRect rect outWidth outHeight
  guard (aux.width % 16 = 0 ∧ aux.height % 16 = 0)
  each (List.range' rect.top (rect.bottom - rect.top)) (applyAuxRow aux version rect) s

end

/-! ### What the loops over a row write -/

variable {ι : Type} {shape : Shape ι} {want : ι → ℕ → ℕ → UInt8} {d : Span ι} {row left n : ℕ} {f g : ℕ → UInt8}

/-- The samples of a row, as a span of it has them. -/
abbrev samples (n : ℕ) (f : ℕ → UInt8) : List UInt8 := (List.range n).map f

theorem getElem?_samples {x : ℕ} (hx : x < n) : (samples n f)[x]? = some (f x) := by simp [hx]

theorem subspan_row {s : Planes UInt8 shape} {p : ι} {f : ℕ → UInt8} (hrow : row < shape.height p)
    (hfit : left + n ≤ shape.stride p) (hcells : ∀ c < shape.stride p, s.at p row c = some (f c)) :
    subspan (s.plane p) (row * shape.stride p + left) n = some (samples n fun x => f (left + x)) := by
  have hroom : row * shape.stride p + left + n ≤ (s.plane p).length := by
    have := Nat.mul_le_mul_right (shape.stride p) hrow
    rw [s.length_plane]
    rw [Nat.succ_mul] at this
    omega
  unfold subspan
  rw [if_pos hroom, Rows.take_drop_eq_map _ 0 hroom]
  refine congrArg some (map_congr_left fun x hx => ?_)
  have := hcells (left + x) (by have := mem_range.mp hx; omega)
  unfold Planes.at at this
  rw [getD_eq_getElem?_getD, Nat.add_assoc, this, Option.getD_some]

theorem subspan_samples {start size : ℕ} (h : start + size ≤ n) :
    subspan (samples n f) start size = some (samples size fun x => f (start + x)) := by
  have hroom : start + size ≤ (samples n f).length := by simpa using h
  unfold subspan
  rw [if_pos hroom, Rows.take_drop_eq_map _ 0 hroom]
  refine congrArg some (map_congr_left fun x hx => ?_)
  have := mem_range.mp hx
  rw [getD_eq_getElem?_getD, getElem?_samples (by omega), Option.getD_some]

section
variable [DecidableEq ι]

theorem copy_paints (hd : d.InRow shape row left) (hn : n = d.size)
    (hf : ∀ x < d.size, f x = want d.plane row (left + x)) :
    Paints (d.cells row left) want (copy (samples n f) d : Draw UInt8 shape) := by
  subst hn
  unfold copy
  rw [length_map, length_range]
  refine Paints.fill hd fun x hx => funext fun s => ?_
  rw [getElem?_samples hx, hf x hx]
  rfl

/-- The rounded average of four samples. -/
def average (a b c d : UInt8) : UInt8 := UInt8.ofNat ((a.toNat + b.toNat + c.toNat + d.toNat + 2) >>> 2)

theorem average2x2_paints (hd : d.InRow shape row left) (hn : n = 2 * d.size)
    (hf : ∀ x < d.size, average (f (2 * x)) (f (2 * x + 1)) (g (2 * x)) (g (2 * x + 1)) = want d.plane row (left + x)) :
    Paints (d.cells row left) want (average2x2 (samples n f) (samples n g) d : Draw UInt8 shape) := by
  subst hn
  refine Paints.using (if_pos (by simp)) (Paints.fill hd fun x hx => funext fun s => ?_)
  have heven : 2 * x < 2 * d.size := by omega
  have hodd : 2 * x + 1 < 2 * d.size := by omega
  simp only [getElem?_samples heven, getElem?_samples hodd]
  rw [← hf x hx]
  rfl

theorem gather_paints {first step : ℕ} (hd : d.InRow shape row left)
    (hn : d.size = 0 ∨ first + step * (d.size - 1) < n)
    (hf : ∀ x < d.size, f (first + step * x) = want d.plane row (left + x)) :
    Paints (d.cells row left) want (gather (samples n f) first step d : Draw UInt8 shape) := by
  refine Paints.using (if_pos (by simpa using hn)) (Paints.fill hd fun x hx => funext fun s => ?_)
  have hlast : step * x ≤ step * (d.size - 1) := Nat.mul_le_mul_left _ (by omega)
  rw [getElem?_samples (show first + step * x < n by omega), hf x hx]
  rfl

theorem scatter_paints {step : ℕ} (hd : d.InRow shape row left) : ∀ {src : List UInt8} {i : ℕ},
    (∀ x, i + step * x < d.size → ∀ a, src[x]? = some a → a = want d.plane row (left + (i + step * x))) →
    Paints (fun p r c => p = d.plane ∧ r = row ∧ ∃ x < src.length, i + step * x < d.size ∧ c = left + (i + step * x))
      want (scatter d step src i : Draw UInt8 shape)
  | [], i, _ => Paints.none.congr fun p r c _ _ => by simp
  | a :: src, i, hsrc => by
    unfold scatter
    by_cases hi : i < d.size
    · rw [if_pos hi]
      have hhead := Paints.store hd hi (hsrc 0 (by simpa using hi) a rfl)
      refine (hhead.seq (scatter_paints hd fun x hx b hb => ?_)).congr fun p r c _ _ => ?_
      · rw [Nat.add_assoc, Nat.add_comm step, ← Nat.mul_succ] at hx ⊢
        exact hsrc (x + 1) hx b hb
      simp only [length_cons, Nat.exists_lt_succ_left, Nat.mul_zero, Nat.add_zero, Nat.mul_succ, hi, true_and,
        Nat.add_assoc, Nat.add_comm step, ← and_or_left]
    · rw [if_neg hi]
      refine Paints.none.congr fun p r c _ _ => iff_false_intro ?_
      rintro ⟨_, _, x, _, hx, _⟩
      omega

/-- The odd columns of a span, from half as many samples. -/
theorem scatter_odd (hd : d.InRow shape row left) (hf : ∀ x < d.size / 2, f x = want d.plane row (left + (2 * x + 1))) :
    Paints (fun p r c => d.cells row left p r c ∧ (c - left) % 2 = 1) want
      (scatter d 2 (samples (d.size / 2) f) 1 : Draw UInt8 shape) := by
  refine (scatter_paints hd fun x hx a ha => ?_).congr fun p r c _ _ => ?_
  · rw [getElem?_samples (by omega)] at ha
    rw [← Option.some.inj ha, hf x (by omega), Nat.add_comm 1]
  · rw [length_map, length_range]
    constructor
    · rintro ⟨⟨hp, hr, hlo, hhi⟩, hodd⟩
      exact ⟨hp, hr, (c - left) / 2, by omega, by omega, by omega⟩
    · rintro ⟨hp, hr, x, _, _, hc⟩
      exact ⟨⟨hp, hr, by omega, by omega⟩, by omega⟩

end

end Yuv444
end Codec
end Farland
