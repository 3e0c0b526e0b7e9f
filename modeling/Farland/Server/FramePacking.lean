/-
# The updates of a frame

What `FrameEncoder::encode` makes of the tiles it collected: it fills an update
until the next rectangle would not fit and starts another. An update counts its
rectangles in 16 bits and the encoder looks at bytes only, so an update that
may be large enough for more than 65535 rectangles fails an assertion.

Key theorems: **`pack_spec`**, `pack_none`, `encodeTile_spec`.
-/
import Farland.Server.FrameEncoder

namespace Farland
namespace Server
namespace FrameEncoder

open List Batch

open Codec.Clear (ImageView)
open Codec Proto.Bitmap

/-! ### Filling updates -/

/-- Whether no update gets more rectangles than it can count, the updates filled with rectangles of these sizes. -/
def Countable (maxUpdateSize : ℕ) : ℕ → ℕ → List ℕ → Prop
  | count, _, [] => count ≤ maxRectangles
  | count, size, next :: sizes =>
    if maxUpdateSize < size + next then
      count ≤ maxRectangles ∧ Countable maxUpdateSize 1 (updateHeaderSize + next) sizes
    else Countable maxUpdateSize (count + 1) (size + next) sizes

instance decidableCountable (maxUpdateSize : ℕ) : ∀ (count size : ℕ) (sizes : List ℕ),
    Decidable (Countable maxUpdateSize count size sizes)
  | count, _, [] => inferInstanceAs (Decidable (count ≤ maxRectangles))
  | count, size, next :: sizes =>
    have := decidableCountable maxUpdateSize 1 (updateHeaderSize + next) sizes
    have := decidableCountable maxUpdateSize (count + 1) (size + next) sizes
    inferInstanceAs (Decidable (if maxUpdateSize < size + next then _ else _))

variable {maxUpdateSize : ℕ}

/-- Few rectangles can be counted. -/
theorem countable_of_le : ∀ {count size : ℕ} {sizes : List ℕ}, count + sizes.length ≤ maxRectangles →
    Countable maxUpdateSize count size sizes
  | _, _, [], h => h
  | count, size, next :: sizes, h => by
    rw [length_cons] at h
    unfold Countable
    split_ifs
    · refine ⟨by omega, countable_of_le ?_⟩
      omega
    · apply countable_of_le
      omega

/-- Rectangles that fit one update together are all put in it. -/
theorem countable_iff_of_fits : ∀ {count size : ℕ} {sizes : List ℕ}, size + sizes.sum ≤ maxUpdateSize →
    (Countable maxUpdateSize count size sizes ↔ count + sizes.length ≤ maxRectangles)
  | _, _, [], _ => Iff.rfl
  | count, size, next :: sizes, h => by
    rw [sum_cons] at h
    have hfits : ¬ maxUpdateSize < size + next := by omega
    have hrest : size + next + sizes.sum ≤ maxUpdateSize := by omega
    unfold Countable
    rw [if_neg hfits, countable_iff_of_fits hrest, length_cons]
    omega

/-- Rectangles of one size that fit one update together. -/
theorem countable_replicate {count size number next : ℕ} (h : size + number * next ≤ maxUpdateSize) :
    Countable maxUpdateSize count size (List.replicate number next) ↔ count + number ≤ maxRectangles := by
  have hfits : size + (List.replicate number next).sum ≤ maxUpdateSize := by
    rw [sum_replicate]
    exact h
  rw [countable_iff_of_fits hfits, length_replicate]

/-- An update of this size never holds too many rectangles. -/
theorem countable_of_small {least : ℕ} (hleast : 0 < least)
    (hsmall : maxUpdateSize < updateHeaderSize + (maxRectangles + 1) * least) : ∀ {count size : ℕ} {sizes : List ℕ},
    (∀ next ∈ sizes, least ≤ next) → updateHeaderSize + count * least ≤ size → (count = 0 ∨ size ≤ maxUpdateSize) →
      (∀ next ∈ sizes, updateHeaderSize + next ≤ maxUpdateSize) → Countable maxUpdateSize count size sizes
  | count, size, [], _, hsize, hmax, _ => by
    obtain rfl | hmax := hmax
    · exact Nat.zero_le _
    · have hlt : count * least < (maxRectangles + 1) * least := by omega
      exact Nat.le_of_lt_succ (Nat.lt_of_mul_lt_mul_right hlt)
  | count, size, next :: sizes, hsizes, hsize, hmax, hfits => by
    have hcount : count ≤ maxRectangles := by
      obtain rfl | hmax := hmax
      · exact Nat.zero_le _
      · have hlt : count * least < (maxRectangles + 1) * least := by omega
        exact Nat.le_of_lt_succ (Nat.lt_of_mul_lt_mul_right hlt)
    have hnext : least ≤ next := hsizes next mem_cons_self
    have hfit : updateHeaderSize + next ≤ maxUpdateSize := hfits next mem_cons_self
    have hsizes' : ∀ n ∈ sizes, least ≤ n := fun n hn => hsizes n (mem_cons_of_mem _ hn)
    have hfits' : ∀ n ∈ sizes, updateHeaderSize + n ≤ maxUpdateSize := fun n hn => hfits n (mem_cons_of_mem _ hn)
    unfold Countable
    split_ifs with hfull
    · refine ⟨hcount, countable_of_small hleast hsmall hsizes' ?_ (.inr hfit) hfits'⟩
      omega
    · refine countable_of_small hleast hsmall hsizes' ?_ (.inr (by omega)) hfits'
      rw [Nat.succ_mul]
      omega

/-! ### What updates carry -/

/-- The updates hold the rectangles, in order, and none is larger than the limit. -/
def Carries (maxUpdateSize : ℕ) (updates : List (List UInt8)) (rects : List BitmapData) : Prop :=
  ∃ groups, groups.flatten = rects ∧ List.Forall₂ (fun group update =>
    decodeBitmapUpdate update = .ok group ∧ update.length ≤ maxUpdateSize) groups updates

section

variable {maxUpdateSize : ℕ} {rects rects' : List BitmapData} {updates updates' : List (List UInt8)}

theorem Carries.nil : Carries maxUpdateSize [] [] := ⟨[], rfl, .nil⟩

theorem Carries.append (h : Carries maxUpdateSize updates rects) (h' : Carries maxUpdateSize updates' rects') :
    Carries maxUpdateSize (updates ++ updates') (rects ++ rects') := by
  obtain ⟨groups, rfl, hall⟩ := h
  obtain ⟨groups', rfl, hall'⟩ := h'
  exact ⟨groups ++ groups', flatten_append, rel_append hall hall'⟩

/-- A batch on its way. -/
structure Filling (maxUpdateSize : ℕ) (b : Batch) : Prop where
  fits : ∀ rect ∈ b.rects, Fits rect
  size : b.size = updateHeaderSize + (b.rects.map BitmapData.encodedSize).sum
  max : b.rects ≠ [] → b.size ≤ maxUpdateSize

/-- The batch behind a flush. -/
def Batch.flushed (b : Batch) (updates : List (List UInt8)) : Batch :=
  { updates := b.updates ++ updates, rects := [], size := updateHeaderSize }

theorem Batch.flushed_filling (b : Batch) (updates : List (List UInt8)) : Filling maxUpdateSize (b.flushed updates) :=
  ⟨fun _ h => (by cases h), rfl, fun h => absurd rfl h⟩

variable {b : Batch}

theorem Batch.flush_spec (h : Filling maxUpdateSize b) (hcount : b.rects.length ≤ maxRectangles) :
    ∃ updates, b.flush = some (b.flushed updates) ∧ Carries maxUpdateSize updates b.rects := by
  unfold flush
  by_cases hempty : b.rects = []
  · refine ⟨[], ?_, ?_⟩
    · rw [if_pos hempty]
      have hsize := h.size
      rw [hempty] at hsize
      unfold flushed
      rw [← hempty]
      cases b
      simp only at hsize
      simp [hsize]
    · rw [hempty]
      exact Carries.nil
  · obtain ⟨update, hwritten, hlength, hread⟩ := encodeBitmapUpdate_some h.fits hcount
    refine ⟨[update], ?_, ⟨[b.rects], by simp, .cons ⟨hread, ?_⟩ .nil⟩⟩
    · rw [if_neg hempty, hwritten]
      rfl
    · rw [hlength, ← show updateHeaderSize = 4 from rfl, ← h.size]
      exact h.max hempty

theorem Batch.flush_none (hcount : ¬ b.rects.length ≤ maxRectangles) : b.flush = none := by
  have hempty : b.rects ≠ [] := by
    rintro h
    rw [h] at hcount
    exact hcount (Nat.zero_le _)
  unfold flush
  rw [if_neg hempty, encodeBitmapUpdate_none (Nat.not_le.mp hcount)]
  rfl

/-- The batch with one more rectangle. -/
def Batch.push (b : Batch) (rect : BitmapData) : Batch :=
  { b with rects := b.rects ++ [rect], size := b.size + rect.encodedSize }

theorem Batch.push_filling {rect : BitmapData} (h : Filling maxUpdateSize b) (hrect : Fits rect)
    (hmax : b.size + rect.encodedSize ≤ maxUpdateSize) : Filling maxUpdateSize (b.push rect) where
  fits := by
    intro r hr
    obtain hr | hr := mem_append.mp hr
    · exact h.fits r hr
    · rw [mem_singleton.mp hr]
      exact hrect
  size := by
    unfold push
    rw [h.size, map_append, sum_append, map_singleton, sum_singleton, Nat.add_assoc]
  max := fun _ => hmax

theorem Batch.add_eq {rect : BitmapData} (hrect : updateHeaderSize + rect.encodedSize ≤ maxUpdateSize) :
    b.add rect maxUpdateSize =
      (if maxUpdateSize < b.size + rect.encodedSize then b.flush else some b).map fun b => b.push rect := by
  have hpush : ∀ flushed : Option Batch, (flushed.bind fun b => (asserts (updateHeaderSize + rect.encodedSize ≤
      maxUpdateSize)).bind fun _ => some (b.push rect)) = flushed.map fun b => b.push rect := by
    intro flushed
    cases flushed with
    | none => rfl
    | some b =>
      rw [asserts, if_pos hrect]
      rfl
  exact hpush _

/-- What is asked of every rectangle: it fits its fields and an update. -/
def Packable (maxUpdateSize : ℕ) (rects : List BitmapData) : Prop :=
  ∀ rect ∈ rects, Fits rect ∧ updateHeaderSize + rect.encodedSize ≤ maxUpdateSize

/-- **Updates carry the rectangles in order**, each within the limit. -/
theorem pack_spec : ∀ (rects : List BitmapData) {b : Batch}, Packable maxUpdateSize rects → Filling maxUpdateSize b →
    Countable maxUpdateSize b.rects.length b.size (rects.map BitmapData.encodedSize) →
      ∃ updates, pack maxUpdateSize rects b = some (b.updates ++ updates) ∧
        Carries maxUpdateSize updates (b.rects ++ rects)
  | [], b, _, hb, hcount => by
    obtain ⟨updates, hflush, hcarries⟩ := flush_spec hb hcount
    refine ⟨updates, ?_, ?_⟩
    · rw [pack, hflush]
      rfl
    · rw [append_nil]
      exact hcarries
  | rect :: rects, b, hrects, hb, hcount => by
    obtain ⟨hfits, hmax⟩ := hrects rect mem_cons_self
    have hrest : Packable maxUpdateSize rects := fun r hr => hrects r (mem_cons_of_mem _ hr)
    rw [map_cons, Countable] at hcount
    rw [pack, add_eq hmax]
    by_cases hfull : maxUpdateSize < b.size + rect.encodedSize
    · rw [if_pos hfull] at hcount ⊢
      obtain ⟨flushed, hflush, hcarries⟩ := flush_spec hb hcount.1
      obtain ⟨updates, hpack, hcarries'⟩ := pack_spec rects (b := (b.flushed flushed).push rect) hrest
        (push_filling (b.flushed_filling flushed) hfits hmax) hcount.2
      refine ⟨flushed ++ updates, ?_, hcarries.append hcarries'⟩
      rw [hflush]
      change pack maxUpdateSize rects ((b.flushed flushed).push rect) = _
      rw [hpack, ← append_assoc]
      rfl
    · rw [if_neg hfull] at hcount ⊢
      have hlength : (b.push rect).rects.length = b.rects.length + 1 := length_append
      obtain ⟨updates, hpack, hcarries⟩ := pack_spec rects (b := b.push rect) hrest
        (push_filling hb hfits (Nat.not_lt.mp hfull)) (hlength ▸ hcount)
      refine ⟨updates, hpack, ?_⟩
      rw [append_cons]
      exact hcarries

/-- An update with too many rectangles is not written. -/
theorem pack_none : ∀ (rects : List BitmapData) {b : Batch}, Packable maxUpdateSize rects → Filling maxUpdateSize b →
    ¬ Countable maxUpdateSize b.rects.length b.size (rects.map BitmapData.encodedSize) →
      pack maxUpdateSize rects b = none
  | [], b, _, _, hcount => by
    rw [pack, flush_none hcount]
    rfl
  | rect :: rects, b, hrects, hb, hcount => by
    obtain ⟨hfits, hmax⟩ := hrects rect mem_cons_self
    have hrest : Packable maxUpdateSize rects := fun r hr => hrects r (mem_cons_of_mem _ hr)
    rw [map_cons, Countable] at hcount
    rw [pack, add_eq hmax]
    by_cases hfull : maxUpdateSize < b.size + rect.encodedSize
    · rw [if_pos hfull] at hcount ⊢
      by_cases hcount' : b.rects.length ≤ maxRectangles
      · obtain ⟨flushed, hflush, -⟩ := flush_spec hb hcount'
        rw [hflush]
        change pack maxUpdateSize rects ((b.flushed flushed).push rect) = none
        exact pack_none rects hrest (push_filling (b.flushed_filling flushed) hfits hmax) fun h =>
          hcount ⟨hcount', h⟩
      · rw [flush_none hcount']
        rfl
    · rw [if_neg hfull] at hcount ⊢
      have hlength : (b.push rect).rects.length = b.rects.length + 1 := length_append
      exact pack_none rects (b := b.push rect) hrest (push_filling hb hfits (Nat.not_lt.mp hfull)) (hlength ▸ hcount)

/-- A rectangle too large for an update fails an assertion. -/
theorem pack_too_large : ∀ {rects : List BitmapData} {b : Batch} {rect : BitmapData}, rect ∈ rects →
    maxUpdateSize < updateHeaderSize + rect.encodedSize → pack maxUpdateSize rects b = none
  | first :: rects, b, rect, hmem, hlarge => by
    rw [pack]
    obtain rfl | hmem := mem_cons.mp hmem
    · have hadd : b.add rect maxUpdateSize = none := by
        unfold add
        rw [asserts, if_neg (Nat.not_le.mpr hlarge)]
        cases b.flushIf (maxUpdateSize < b.size + rect.encodedSize) <;> rfl
      rw [hadd]
      rfl
    · cases b.add first maxUpdateSize with
      | none => rfl
      | some b => exact pack_too_large hmem hlarge

end

end FrameEncoder
end Server
end Farland
