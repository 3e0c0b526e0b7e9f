/-
# Computations that must return

A computation in `Option` whose `none` is an abort. `Returns x Q` says that
`x` does not abort and that its result satisfies `Q`. There is one rule for
each way computations are put together; a loop is `List.foldlM`, whose
invariant may speak of the elements it has been through.
-/
import Mathlib.Tactic

namespace Farland

universe u

/-- `x` does not abort, and what it returns satisfies `Q`. -/
def Returns {α : Type u} (x : Option α) (Q : α → Prop) : Prop := ∃ a, x = some a ∧ Q a

namespace Returns

variable {α β : Type u} {x : Option α} {P Q : α → Prop}

protected theorem some {a : α} (h : Q a) : Returns (some a) Q := ⟨a, rfl, h⟩

protected theorem pure {a : α} (h : Q a) : Returns (pure a) Q := ⟨a, rfl, h⟩

protected theorem bind {f : α → Option β} {Q : β → Prop} (hx : Returns x P) (hf : ∀ a, P a → Returns (f a) Q) :
    Returns (x >>= f) Q := by
  obtain ⟨a, rfl, ha⟩ := hx
  exact hf a ha

protected theorem mono (hx : Returns x P) (h : ∀ a, P a → Q a) : Returns x Q := by
  obtain ⟨a, ha, hP⟩ := hx
  exact ⟨a, ha, h a hP⟩

protected theorem map {f : α → β} {Q : β → Prop} (hx : Returns x fun a => Q (f a)) : Returns (x.map f) Q := by
  obtain ⟨a, rfl, ha⟩ := hx
  exact ⟨f a, rfl, ha⟩

protected theorem ite {p : Prop} [Decidable p] {y : Option α} (hx : p → Returns x Q) (hy : ¬p → Returns y Q) :
    Returns (if p then x else y) Q := by
  by_cases h : p
  · rw [if_pos h]
    exact hx h
  · rw [if_neg h]
    exact hy h

end Returns
end Farland
