/-
# Rows in one list

A picture kept as one list, row after row. What stands at a place of a row is
found in the list (`getD_flatMap_range`), a piece of the list is its elements
one by one (`take_drop_eq_map`), and rows overwritten in it change what stands
there and nothing else (`getD_overwriteRows`).
-/
import Farland.Lib.Ring

namespace Farland
namespace Rows

open List

variable {α : Type}

/-- A piece of a list, element by element. -/
theorem take_drop_eq_map (l : List α) {start count : ℕ} (d : α) (h : start + count ≤ l.length) :
    (l.drop start).take count = (List.range count).map fun i => l.getD (start + i) d := by
  refine ext_getElem? fun i => ?_
  by_cases hi : i < count
  · have hin : start + i < l.length := by omega
    rw [getElem?_take_of_lt hi, getElem?_drop, getElem?_map, getElem?_range hi, Option.map_some,
      getD_eq_getElem?_getD, getElem?_eq_getElem hin, Option.getD_some]
  · rw [getElem?_eq_none (by simp; omega), getElem?_eq_none (by simp; omega)]

variable {f : ℕ → List α} {width : ℕ}

theorem length_flatMap_range : ∀ (height : ℕ), (∀ i < height, (f i).length = width) →
    ((List.range height).flatMap f).length = height * width
  | 0, _ => by simp
  | height + 1, h => by
    rw [range_succ, flatMap_append, length_append,
      length_flatMap_range height fun i hi => h i (Nat.lt_succ_of_lt hi), flatMap_singleton,
        h height (Nat.lt_succ_self _),
      Nat.succ_mul]

/-- What stands in a row. -/
theorem getElem?_flatMap_range : ∀ (height : ℕ), (∀ i < height, (f i).length = width) →
    ∀ {y x : ℕ}, y < height → x < width → ((List.range height).flatMap f)[y * width + x]? = (f y)[x]?
  | 0, _, y, _, hy, _ => absurd hy (Nat.not_lt_zero y)
  | height + 1, h, y, x, hy, hx => by
    have hrows := length_flatMap_range height fun i hi => h i (Nat.lt_succ_of_lt hi)
    rw [range_succ, flatMap_append, flatMap_singleton]
    by_cases hlast : y < height
    · have hlt : y * width + x < height * width := by
        calc y * width + x < y * width + width := by omega
          _ = (y + 1) * width := (Nat.succ_mul _ _).symm
          _ ≤ height * width := Nat.mul_le_mul_right _ hlast
      rw [getElem?_append_left (by rw [hrows]; exact hlt)]
      exact getElem?_flatMap_range height (fun i hi => h i (Nat.lt_succ_of_lt hi)) hlast hx
    · obtain rfl : y = height := by omega
      rw [getElem?_append_right (by rw [hrows]; omega)]
      congr 1
      omega

theorem getD_flatMap_range {height : ℕ} (h : ∀ i < height, (f i).length = width) {y x : ℕ} (hy : y < height)
    (hx : x < width) (d : α) : ((List.range height).flatMap f).getD (y * width + x) d = (f y).getD x d := by
  rw [getD_eq_getElem?_getD, getElem?_flatMap_range height h hy hx, ← getD_eq_getElem?_getD]

theorem getD_map_range {f : ℕ → α} {n i : ℕ} (hi : i < n) (d : α) : ((List.range n).map f).getD i d = f i := by
  rw [getD_eq_getElem?_getD, getElem?_map, getElem?_range hi]
  rfl

/-- An element after some were written over. -/
theorem getD_overwrite {l chunk : List α} {start : ℕ} (h : start + chunk.length ≤ l.length) (d : α) (i : ℕ) :
    (Ring.overwrite l start chunk).getD i d =
      if start ≤ i ∧ i < start + chunk.length then chunk.getD (i - start) d else l.getD i d := by
  rw [getD_eq_getElem?_getD, Ring.getElem?_overwrite h]
  split_ifs <;> rw [getD_eq_getElem?_getD]

/-- Two places in rows of one width. -/
theorem place_eq_iff {x y x' y' : ℕ} (hx : x < width) (hx' : x' < width) :
    y * width + x = y' * width + x' ↔ y = y' ∧ x = x' := by
  constructor
  · intro h
    have hy : y = y' := by
      have hleft : (y * width + x) / width = y := by
        rw [Nat.mul_comm, Nat.mul_add_div (by omega), Nat.div_eq_of_lt hx, Nat.add_zero]
      have hright : (y' * width + x') / width = y' := by
        rw [Nat.mul_comm, Nat.mul_add_div (by omega), Nat.div_eq_of_lt hx', Nat.add_zero]
      rw [← hleft, ← hright, h]
    subst hy
    exact ⟨rfl, by omega⟩
  · rintro ⟨rfl, rfl⟩
    rfl

/-- Rows `top` to `top + count` of a picture `width` wide, from `left` on, written over. -/
def overwriteRows (width left : ℕ) (row : ℕ → List α) : ℕ → ℕ → List α → List α
  | _, 0, l => l
  | top, count + 1, l => overwriteRows width left row (top + 1) count (Ring.overwrite l (top * width + left) (row top))

theorem overwriteRows_length {left size height : ℕ} {row : ℕ → List α} (hleft : left + size ≤ width)
    (hrow : ∀ y < height, (row y).length = size) : ∀ (count top : ℕ) (l : List α), l.length = height * width →
      top + count ≤ height → (overwriteRows width left row top count l).length = height * width
  | 0, _, _, hl, _ => hl
  | count + 1, top, l, hl, hin => by
    have hfits : top * width + left + (row top).length ≤ l.length := by
      rw [hl, hrow top (by omega)]
      calc top * width + left + size ≤ top * width + width := by omega
        _ = (top + 1) * width := (Nat.succ_mul _ _).symm
        _ ≤ height * width := Nat.mul_le_mul_right _ (by omega)
    refine overwriteRows_length hleft hrow count (top + 1) _ ?_ (by omega)
    rw [Ring.overwrite_length hfits, hl]

/-- **Rows written over change what stands there, and nothing else.** -/
theorem getD_overwriteRows {left size height : ℕ} {row : ℕ → List α} (hleft : left + size ≤ width)
    (hrow : ∀ y < height, (row y).length = size) (d : α) : ∀ (count top : ℕ) (l : List α), l.length = height * width →
      top + count ≤ height → ∀ {y x : ℕ}, x < width →
      (overwriteRows width left row top count l).getD (y * width + x) d =
        if (top ≤ y ∧ y < top + count) ∧ left ≤ x ∧ x < left + size then (row y).getD (x - left) d
        else l.getD (y * width + x) d
  | 0, top, l, _, _, y, x, _ => by
    rw [if_neg (by omega)]
    rfl
  | count + 1, top, l, hl, hin, y, x, hx => by
    have hfits : top * width + left + (row top).length ≤ l.length := by
      rw [hl, hrow top (by omega)]
      calc top * width + left + size ≤ top * width + width := by omega
        _ = (top + 1) * width := (Nat.succ_mul _ _).symm
        _ ≤ height * width := Nat.mul_le_mul_right _ (by omega)
    have hl' : (Ring.overwrite l (top * width + left) (row top)).length = height * width := by
      rw [Ring.overwrite_length hfits, hl]
    rw [overwriteRows, getD_overwriteRows hleft hrow d count (top + 1) _ hl' (by omega) hx, getD_overwrite hfits,
      hrow top (by omega)]
    by_cases hy : y = top
    · subst hy
      rw [if_neg (by omega)]
      by_cases hcol : left ≤ x ∧ x < left + size
      · rw [if_pos (by omega), if_pos (by omega)]
        congr 1
        omega
      · rw [if_neg (by omega), if_neg (by omega)]
    · have hother : ¬ (top * width + left ≤ y * width + x ∧ y * width + x < top * width + left + size) := by
        rintro ⟨h1, h2⟩
        have hplace : y * width + x = top * width + (y * width + x - top * width) := by omega
        exact hy ((place_eq_iff hx (by omega)).mp hplace).1
      rw [if_neg hother]
      by_cases hin' : (top + 1 ≤ y ∧ y < top + 1 + count) ∧ left ≤ x ∧ x < left + size
      · rw [if_pos hin', if_pos (by omega)]
      · rw [if_neg hin', if_neg (by omega)]

end Rows
end Farland
