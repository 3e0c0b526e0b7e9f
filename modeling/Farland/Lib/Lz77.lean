/-
# LZ77 token streams

A stream of literals, runs and copies, and what it stands for behind a given
history. A copy may reach into its own output (`IsCopy.get`), which makes it
periodic (`IsCopy.get_mod`): a decoder may repeat the bytes of the history
instead. `Expands h ts out` is the meaning of a whole stream.

Key theorems: `IsCopy.eq_of_get_mod`, `copy_isCopy`, `Expands.append`.
-/
import Mathlib.Tactic

namespace Farland
namespace Lz77

open List

variable {α : Type*}

inductive Tok (α : Type*) where
  | lit (b : α)
  | run (bs : List α)
  | copy (distance length : ℕ)

/-- `out` is the `n` elements that start `d` before the end of `h`, where an
element of `out` itself may be the source of a later one. -/
structure IsCopy (h : List α) (d n : ℕ) (out : List α) : Prop where
  pos : 1 ≤ d
  le : d ≤ h.length
  length : out.length = n
  get : ∀ i < n, out[i]? = (h ++ out)[h.length - d + i]?

/-- A copy repeats the last `d` elements of the history. -/
theorem IsCopy.get_mod {h out : List α} {d n : ℕ} (hc : IsCopy h d n out) (i : ℕ) (hi : i < n) :
    out[i]? = h[h.length - d + i % d]? := by
  have hd := hc.pos
  have hle := hc.le
  induction i using Nat.strong_induction_on with
  | _ i ih =>
    rw [hc.get i hi]
    rcases Nat.lt_or_ge i d with h1 | h1
    · rw [Nat.mod_eq_of_lt h1, getElem?_append_left (by omega)]
    · rw [getElem?_append_right (by omega), show h.length - d + i - h.length = i - d by omega,
        ih (i - d) (by omega) (by omega), ← Nat.mod_eq_sub_mod h1]

theorem IsCopy.eq_of_get_mod {h out out' : List α} {d n : ℕ} (hc : IsCopy h d n out) (hlen : out'.length = n)
    (hget : ∀ i < n, out'[i]? = h[h.length - d + i % d]?) : out' = out := by
  refine ext_getElem? fun i => ?_
  rcases Nat.lt_or_ge i n with h1 | h1
  · rw [hget i h1, hc.get_mod i h1]
  · rw [getElem?_eq_none (by omega), getElem?_eq_none (by rw [hc.length]; exact h1)]

/-- A copy, element by element. -/
def copy (d : ℕ) : ℕ → List α → List α
  | 0, _ => []
  | n + 1, h =>
    match h[h.length - d]? with
    | some b => b :: copy d n (h ++ [b])
    | none => []

theorem copy_isCopy {d : ℕ} (hd : 1 ≤ d) : ∀ (n : ℕ) {h : List α}, d ≤ h.length → IsCopy h d n (copy d n h)
  | 0, h, hle => ⟨hd, hle, rfl, fun i hi => absurd hi (Nat.not_lt_zero i)⟩
  | n + 1, h, hle => by
    have hin : h.length - d < h.length := by omega
    have ih := copy_isCopy hd n (h := h ++ [h[h.length - d]]) (by rw [length_append]; omega)
    rw [copy, getElem?_eq_getElem hin]
    refine ⟨hd, hle, by rw [length_cons, ih.length], fun i hi => ?_⟩
    cases i with
    | zero => rw [getElem?_cons_zero, Nat.add_zero, getElem?_append_left hin, getElem?_eq_getElem hin]
    | succ i =>
      rw [getElem?_cons_succ, ih.get i (by omega), append_assoc, singleton_append, length_append,
        length_singleton, show h.length + 1 - d + i = h.length - d + (i + 1) by omega]

/-- What a token appends to a history. -/
def Yields (h : List α) : Tok α → List α → Prop
  | .lit b, out => out = [b]
  | .run bs, out => out = bs
  | .copy d n, out => IsCopy h d n out

/-- What a stream appends to a history. -/
inductive Expands : List α → List (Tok α) → List α → Prop
  | nil (h : List α) : Expands h [] []
  | cons {h a b : List α} {t : Tok α} {ts : List (Tok α)} :
      Yields h t a → Expands (h ++ a) ts b → Expands h (t :: ts) (a ++ b)

theorem Expands.one {h a : List α} {t : Tok α} (hy : Yields h t a) : Expands h [t] a := by
  simpa using Expands.cons hy (Expands.nil (h ++ a))

theorem Expands.append {h a b : List α} {ts us : List (Tok α)} (h1 : Expands h ts a) :
    Expands (h ++ a) us b → Expands h (ts ++ us) (a ++ b) := by
  induction h1 with
  | nil h => simp
  | cons hy _ ih =>
    intro h2
    rw [← append_assoc] at h2
    rw [append_assoc]
    exact .cons hy (ih h2)

end Lz77
end Farland
