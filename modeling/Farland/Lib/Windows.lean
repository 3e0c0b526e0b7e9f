/-
# Windows copied in one list

Windows of one width are copied from one place of a list to another, one after
the other. When none is read after a part of it was overwritten, and no two go
to the same place, every window arrives as it was in the first list, and what
is in none of them stays.

Key theorems: `copied_get`, `copied_get_outside`.
-/
import Farland.Lib.Ring

namespace Farland
namespace Windows

open List

variable {α ι : Type} (src dst : ι → ℕ) (width : ℕ)

/-- One window. -/
def copyOne (l : List α) (i : ι) : List α := Ring.overwrite l (dst i) ((l.drop (src i)).take width)

def copied (l : List α) (order : List ι) : List α := order.foldl (copyOne src dst width) l

/-- Windows of one width at two places do not meet. -/
def Apart (a b : ℕ) : Prop := a + width ≤ b ∨ b + width ≤ a

/-- No window is read after a part of it was overwritten, and no two go to
the same place. -/
structure InOrder (order : List ι) : Prop where
  read : order.Pairwise fun i j => Apart width (dst i) (src j)
  written : order.Pairwise fun i j => Apart width (dst i) (dst j)

/-- Both ends of every window are in a list of `length`. -/
def Fits (length : ℕ) (order : List ι) : Prop := ∀ i ∈ order, src i + width ≤ length ∧ dst i + width ≤ length

variable {src dst width} {l : List α} {order : List ι}

theorem chunk_length {i : ι} (h : src i + width ≤ l.length) : ((l.drop (src i)).take width).length = width := by
  rw [length_take, length_drop]
  omega

theorem copyOne_length {i : ι} (hsrc : src i + width ≤ l.length) (hdst : dst i + width ≤ l.length) :
    (copyOne src dst width l i).length = l.length :=
  Ring.overwrite_length (by rwa [chunk_length hsrc])

theorem copyOne_get {i : ι} (hsrc : src i + width ≤ l.length) (hdst : dst i + width ≤ l.length) {b : ℕ}
    (hb : b < width) : (copyOne src dst width l i)[dst i + b]? = l[src i + b]? := by
  have hchunk := chunk_length hsrc
  rw [copyOne, Ring.getElem?_overwrite (by rwa [hchunk]), if_pos (by omega), Nat.add_sub_cancel_left,
    getElem?_take_of_lt hb, getElem?_drop]

theorem copyOne_get_outside {i : ι} (hsrc : src i + width ≤ l.length) (hdst : dst i + width ≤ l.length) {p : ℕ}
    (hp : p < dst i ∨ dst i + width ≤ p) : (copyOne src dst width l i)[p]? = l[p]? := by
  have hchunk := chunk_length hsrc
  rw [copyOne, Ring.getElem?_overwrite (by rwa [hchunk]), if_neg (by omega)]

theorem copied_length (h : Fits src dst width l.length order) : (copied src dst width l order).length = l.length := by
  induction order generalizing l with
  | nil => rfl
  | cons i order ih =>
    obtain ⟨⟨hsrc, hdst⟩, hrest⟩ := forall_mem_cons.mp h
    have hlength := copyOne_length hsrc hdst
    exact (ih (hlength.symm ▸ hrest)).trans hlength

/-- **What stays**: all that is in none of the places written. -/
theorem copied_get_outside (h : Fits src dst width l.length order) {p : ℕ}
    (hp : ∀ i ∈ order, p < dst i ∨ dst i + width ≤ p) : (copied src dst width l order)[p]? = l[p]? := by
  induction order generalizing l with
  | nil => rfl
  | cons i order ih =>
    obtain ⟨⟨hsrc, hdst⟩, hrest⟩ := forall_mem_cons.mp h
    obtain ⟨hpi, hps⟩ := forall_mem_cons.mp hp
    have hlength := copyOne_length hsrc hdst
    exact (ih (hlength.symm ▸ hrest) hps).trans (copyOne_get_outside hsrc hdst hpi)

/-- **What arrives**: every window as it was at first. -/
theorem copied_get (h : Fits src dst width l.length order) (horder : InOrder src dst width order) :
    ∀ i ∈ order, ∀ b < width, (copied src dst width l order)[dst i + b]? = l[src i + b]? := by
  induction order generalizing l with
  | nil => exact fun i hi => absurd hi not_mem_nil
  | cons first order ih =>
    obtain ⟨⟨hsrc, hdst⟩, hrest⟩ := forall_mem_cons.mp h
    obtain ⟨hread, hreads⟩ := pairwise_cons.mp horder.read
    obtain ⟨hwritten, hwrittens⟩ := pairwise_cons.mp horder.written
    have hlength := copyOne_length hsrc hdst
    have hfits : Fits src dst width (copyOne src dst width l first).length order := hlength.symm ▸ hrest
    intro i hi b hb
    rcases mem_cons.mp hi with rfl | hi
    · -- the later windows go elsewhere
      have hstays := copied_get_outside hfits (p := dst i + b) fun j hj => by
        have hapart := hwritten j hj
        unfold Apart at hapart
        omega
      exact hstays.trans (copyOne_get hsrc hdst hb)
    · -- the first window did not touch what this one reads
      have harrives := ih hfits ⟨hreads, hwrittens⟩ i hi b hb
      have hapart := hread i hi
      unfold Apart at hapart
      exact harrives.trans (copyOne_get_outside hsrc hdst (by omega))

end Windows
end Farland
