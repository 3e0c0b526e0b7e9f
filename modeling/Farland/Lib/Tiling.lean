/-
# Tilings

A list of parts tiles a whole when no two of them meet and together they are
all of it. Parts can be tiled in their turn, and parts that do not meet have
no more points than what they lie in.

Key theorems: `Tiles.refine`, `sum_ncard_le`.
-/
import Mathlib

namespace Farland
namespace Tiling

variable {α : Type}

structure Tiles (parts : List (Set α)) (whole : Set α) : Prop where
  apart : parts.Pairwise Disjoint
  cover : ∀ x, x ∈ whole ↔ ∃ p ∈ parts, x ∈ p

variable {parts parts' : List (Set α)} {whole : Set α}

theorem Tiles.subset (h : Tiles parts whole) {p : Set α} (hp : p ∈ parts) : p ⊆ whole :=
  fun x hx => (h.cover x).mpr ⟨p, hp, hx⟩

theorem Tiles.perm (h : Tiles parts whole) (hperm : parts.Perm parts') : Tiles parts' whole where
  apart := (hperm.pairwise_iff fun hd => Disjoint.symm hd).mp h.apart
  cover x := by
    rw [h.cover x]
    exact exists_congr fun p => and_congr_left' hperm.mem_iff

theorem Tiles.singleton (whole : Set α) : Tiles [whole] whole where
  apart := List.pairwise_singleton _ _
  cover x := by simp

/-- **A tiling refined**: every part is tiled in its turn. -/
theorem Tiles.refine {l : List (List (Set α) × Set α)} (h : ∀ x ∈ l, Tiles x.1 x.2)
    (hwhole : Tiles (l.map Prod.snd) whole) : Tiles (l.flatMap Prod.fst) whole where
  apart := by
    refine List.pairwise_flatMap.mpr ⟨fun x hx => (h x hx).apart, ?_⟩
    refine (List.pairwise_map.mp hwhole.apart).imp_of_mem ?_
    intro x y hx hy hxy p hp q hq
    exact hxy.mono ((h x hx).subset hp) ((h y hy).subset hq)
  cover a := by
    rw [hwhole.cover a]
    constructor
    · rintro ⟨w, hw, ha⟩
      obtain ⟨x, hx, rfl⟩ := List.mem_map.mp hw
      obtain ⟨p, hp, hap⟩ := ((h x hx).cover a).mp ha
      exact ⟨p, List.mem_flatMap.mpr ⟨x, hx, hp⟩, hap⟩
    · rintro ⟨p, hp, hap⟩
      obtain ⟨x, hx, hpx⟩ := List.mem_flatMap.mp hp
      exact ⟨x.2, List.mem_map.mpr ⟨x, hx, rfl⟩, (h x hx).subset hpx hap⟩

/-- **Parts that do not meet** have no more points than what they lie in. -/
theorem sum_ncard_le (hfinite : whole.Finite) (hapart : parts.Pairwise Disjoint) (hsub : ∀ p ∈ parts, p ⊆ whole) :
    (parts.map Set.ncard).sum ≤ whole.ncard := by
  induction parts generalizing whole with
  | nil => exact Nat.zero_le _
  | cons p parts ih =>
    obtain ⟨hp, hparts⟩ := List.pairwise_cons.mp hapart
    obtain ⟨hpsub, hrest⟩ := List.forall_mem_cons.mp hsub
    have hless := ih (hfinite.sdiff (t := p)) hparts fun q hq =>
      Set.subset_sdiff.mpr ⟨hrest q hq, (hp q hq).symm⟩
    have hsplit := Set.ncard_sdiff_add_ncard_of_subset hpsub hfinite
    rw [List.map_cons, List.sum_cons]
    omega

end Tiling
end Farland
