/-
# Checked computations

A program that fails with an error of its own, or breaks a rule it must obey (a
failed assertion, an access out of range): the one is an error, the other is
`none`. `Agrees x y R` says that `x` obeys every rule, and that it succeeds
exactly where the partial function `y` is defined, with results related by `R`.
`Erases x y` says that `y` is `x` without the rules.

Key theorems: `Agrees.bind`, `Erases.bind`.
-/
import Mathlib.Tactic

namespace Farland

/-- `none` is a broken rule. -/
abbrev Checked (ε α : Type) := ExceptT ε Option α

namespace Checked

variable {ε α β γ δ : Type}

/-- A rule. -/
def rule (p : Prop) [Decidable p] : Checked ε Unit := if p then pure () else ExceptT.mk none

def lift (x : Except ε α) : Checked ε α := ExceptT.mk (some x)

/-! ### Refinement -/

def Agrees (x : Checked ε α) (y : Option β) (R : α → β → Prop) : Prop :=
  match y with
  | none => ∃ e, x = ExceptT.mk (some (.error e))
  | some b => ∃ a, x = ExceptT.mk (some (.ok a)) ∧ R a b

namespace Agrees

variable {x : Checked ε α} {y : Option β} {R : α → β → Prop}

protected theorem pure {a : α} {b : β} (h : R a b) : Agrees (pure a : Checked ε α) (some b) R := ⟨a, rfl, h⟩

/-- **Both go on from related results.** -/
protected theorem bind {f : α → Checked ε γ} {g : β → Option δ} {S : γ → δ → Prop} (h : Agrees x y R)
    (hf : ∀ a b, R a b → Agrees (f a) (g b) S) : Agrees (x >>= f) (y >>= g) S := by
  cases y with
  | none =>
    obtain ⟨e, rfl⟩ := h
    exact ⟨e, rfl⟩
  | some b =>
    obtain ⟨a, rfl, hab⟩ := h
    exact hf a b hab

/-- The same question on both sides. -/
protected theorem ite {p q : Prop} [Decidable p] [Decidable q] {x' : Checked ε α} {y' : Option β} (hpq : p ↔ q)
    (h : q → Agrees x y R) (h' : ¬q → Agrees x' y' R) : Agrees (if p then x else x') (if q then y else y') R := by
  by_cases hq : q
  · rw [if_pos hq, if_pos (hpq.mpr hq)]
    exact h hq
  · rw [if_neg hq, if_neg (mt hpq.mp hq)]
    exact h' hq

/-- A rule that is obeyed. -/
protected theorem rule {p : Prop} [Decidable p] {f : Unit → Checked ε α} (hp : p) (h : Agrees (f ()) y R) :
    Agrees (rule p >>= f) y R := by
  rw [Checked.rule, if_pos hp]
  exact h

end Agrees

/-! ### Without the rules -/

def Erases (x : Checked ε α) (y : Except ε α) : Prop := ∀ r, x = ExceptT.mk (some r) → y = r

namespace Erases

protected theorem pure (a : α) : Erases (pure a : Checked ε α) (.ok a) := fun _ h => Option.some.inj h

protected theorem throw (e : ε) : Erases (throw e : Checked ε α) (.error e) := fun _ h => Option.some.inj h

protected theorem lift (y : Except ε α) : Erases (lift y) y := fun _ h => Option.some.inj h

protected theorem bind {x : Checked ε α} {y : Except ε α} {f : α → Checked ε γ} {g : α → Except ε γ}
    (h : Erases x y) (hf : ∀ a, Erases (f a) (g a)) : Erases (x >>= f) (y >>= g) := by
  intro r hr
  rcases x with _ | e | a
  · cases hr
  · rw [h (.error e) rfl]
    exact Option.some.inj hr
  · rw [h (.ok a) rfl]
    exact hf a r hr

protected theorem ite {p : Prop} [Decidable p] {x x' : Checked ε α} {y y' : Except ε α} (h : Erases x y)
    (h' : Erases x' y') : Erases (if p then x else x') (if p then y else y') := by
  split_ifs
  · exact h
  · exact h'

protected theorem rule {p : Prop} [Decidable p] {f : Unit → Checked ε α} {y : Except ε α} (h : Erases (f ()) y) :
    Erases (rule p >>= f) y := by
  intro r hr
  unfold Checked.rule at hr
  split_ifs at hr
  · exact h r hr
  · cases hr

end Erases

end Checked
end Farland
