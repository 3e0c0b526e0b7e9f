/-
# Ring buffers

A ring of capacity `cap` that first grows and then overwrites its oldest
element. `Holds cap ring pos h` says that the ring holds the last `cap`
elements of the stream `h` and that the next one goes to `pos`.

Key theorems: `Holds.grow`, `Holds.overwrite`, `Holds.get_back`.
-/
import Mathlib.Tactic

namespace Farland
namespace Ring

open List Nat

variable {α : Type*}

/-- Writes `chunk` over the elements from `pos` on. -/
def overwrite (ring : List α) (pos : ℕ) (chunk : List α) : List α :=
  ring.take pos ++ chunk ++ ring.drop (pos + chunk.length)

theorem overwrite_length {ring : List α} {pos : ℕ} {chunk : List α} (h : pos + chunk.length ≤ ring.length) :
    (overwrite ring pos chunk).length = ring.length := by
  simp [overwrite]
  omega

theorem getElem?_overwrite {ring : List α} {pos : ℕ} {chunk : List α} (h : pos + chunk.length ≤ ring.length)
    (j : ℕ) : (overwrite ring pos chunk)[j]? =
      if pos ≤ j ∧ j < pos + chunk.length then chunk[j - pos]? else ring[j]? := by
  have hpos : (ring.take pos).length = pos := by simp; omega
  rw [overwrite, append_assoc]
  split_ifs with hj
  · rw [getElem?_append_right (by omega), hpos, getElem?_append_left (by omega)]
  · rcases Nat.lt_or_ge j pos with h1 | h1
    · rw [getElem?_append_left (by omega), getElem?_take_of_lt h1]
    · rw [getElem?_append_right (by omega), getElem?_append_right (by omega), getElem?_drop]
      congr 1
      omega

/-- The ring holds the last `cap` elements of `h`. -/
structure Holds (cap : ℕ) (ring : List α) (pos : ℕ) (h : List α) : Prop where
  length : ring.length = min h.length cap
  pos : pos = h.length % cap
  get : ∀ i < h.length, h.length ≤ i + cap → ring[i % cap]? = h[i]?

theorem Holds.nil (cap : ℕ) : Holds cap ([] : List α) 0 [] :=
  ⟨by simp, by simp, fun i hi => absurd hi (Nat.not_lt_zero i)⟩

variable {cap pos : ℕ} {ring h : List α}

/-- While the ring grows it is the stream itself. -/
theorem Holds.eq_of_lt (hr : Holds cap ring pos h) (hlt : ring.length < cap) : ring = h := by
  have hlen := hr.length
  refine ext_getElem? fun i => ?_
  rcases Nat.lt_or_ge i h.length with h1 | h1
  · have := hr.get i h1 (by omega)
    rwa [mod_eq_of_lt (by omega)] at this
  · rw [getElem?_eq_none (by omega), getElem?_eq_none h1]

theorem Holds.grow (hr : Holds cap ring pos h) (bs : List α) (hlt : ring.length < cap)
    (hle : ring.length + bs.length ≤ cap) : Holds cap (ring ++ bs) ((ring ++ bs).length % cap) (h ++ bs) := by
  obtain rfl := hr.eq_of_lt hlt
  refine ⟨by simp; omega, rfl, fun i hi _ => ?_⟩
  rw [length_append] at hi
  rw [mod_eq_of_lt (by omega)]

theorem Holds.overwrite (hr : Holds cap ring pos h) (chunk : List α) (hfull : ring.length = cap)
    (hle : pos + chunk.length ≤ cap) :
    Holds cap (overwrite ring pos chunk) ((pos + chunk.length) % cap) (h ++ chunk) := by
  have hlen := hr.length
  have hpos := hr.pos
  refine ⟨?_, ?_, fun i hi hcap => ?_⟩
  · rw [overwrite_length (by omega), length_append]
    omega
  · rw [hpos, mod_add_mod, length_append]
  rw [length_append] at hi hcap
  rw [getElem?_overwrite (by omega)]
  rcases Nat.lt_or_ge i h.length with h1 | h1
  · -- an old element that is still in reach is not one of the overwritten slots
    rw [getElem?_append_left h1, if_neg, hr.get i h1 (by omega)]
    rintro ⟨h2, h3⟩
    obtain ⟨t, ht⟩ : ∃ t, i % cap = pos + t := ⟨i % cap - pos, by omega⟩
    have hmod : (h.length + t) % cap = i % cap := by
      rw [ht, hpos, ← mod_add_mod, mod_eq_of_lt (by omega)]
    have hdvd : cap ∣ h.length + t - i := (modEq_iff_dvd' (by omega)).mp hmod.symm
    have := le_of_dvd (by omega) hdvd
    omega
  · obtain ⟨t, rfl⟩ : ∃ t, i = h.length + t := ⟨i - h.length, by omega⟩
    have hslot : (h.length + t) % cap = pos + t := by
      rw [← mod_add_mod, ← hpos, mod_eq_of_lt (by omega)]
    rw [if_pos ⟨by omega, by omega⟩, getElem?_append_right (by omega)]
    congr 1
    omega

/-- Where the ring keeps the elements `d` back. -/
theorem Holds.get_back (hr : Holds cap ring pos h) {d : ℕ} (hd : 1 ≤ d) (hle : d ≤ ring.length) {i : ℕ} (hi : i < d) :
    ring[((pos + ring.length - d) % ring.length + i) % ring.length]? = h[h.length - d + i]? := by
  have hlen := hr.length
  have hpos := hr.pos
  rw [mod_add_mod]
  rcases Nat.lt_or_ge ring.length cap with hlt | hge
  · obtain rfl := hr.eq_of_lt hlt
    rw [hpos, mod_eq_of_lt hlt, show ring.length + ring.length - d + i = ring.length - d + i + ring.length by omega,
      add_mod_right, mod_eq_of_lt (by omega)]
  · have hcap : ring.length = cap := by omega
    rw [← hr.get _ (by omega) (by omega)]
    congr 1
    have h2 : h.length - d + i + cap = h.length + (cap - d + i) := by omega
    rw [← add_mod_right (h.length - d + i) cap, h2, ← mod_add_mod h.length]
    congr 1
    omega

end Ring
end Farland
