/-
# Handlers that may refuse

A handler works on a state and either answers or refuses with a reason; what
it did to the state before it refused stays done. `wp x Q R s` is the weakest
condition on the state `s` before: an answer of `x` satisfies `Q` and a refusal
satisfies `R`, each with the state that is left. There is one rule for each way
handlers are put together.
-/
import Mathlib.Tactic

namespace Farland

/-- A step on a state of type `σ` that may refuse with an `ε`. -/
abbrev Handler (ε σ α : Type) := ExceptT ε (StateM σ) α

namespace Handler

variable {ε σ α β : Type}

/-- The outcome and the state that is left. -/
def exec (x : Handler ε σ α) (s : σ) : Except ε α × σ := x.run.run s

/-- An action on the state that does not refuse. -/
def act (f : σ → α × σ) : Handler ε σ α := fun s => (.ok (f s).1, (f s).2)

def update (f : σ → σ) : Handler ε σ Unit := act fun s => ((), f s)

def refuse (e : ε) : Handler ε σ α := throw e

def refuseIf (p : Prop) [Decidable p] (e : ε) : Handler ε σ Unit := if p then refuse e else pure ()

/-- The value of a result, or a refusal made of its error. -/
def orRefuse {δ : Type} (f : δ → ε) : Except δ α → Handler ε σ α
  | .ok a => pure a
  | .error d => refuse (f d)

/-- The weakest precondition. -/
def wp (x : Handler ε σ α) (Q : α → σ → Prop) (R : ε → σ → Prop) (s : σ) : Prop :=
  match exec x s with
  | (.ok a, s') => Q a s'
  | (.error e, s') => R e s'

variable {x : Handler ε σ α} {Q Q' : α → σ → Prop} {R R' : ε → σ → Prop} {s : σ}

theorem wp_pure (a : α) : wp (pure a : Handler ε σ α) Q R s = Q a s := rfl

theorem wp_refuse (e : ε) : wp (refuse e : Handler ε σ α) Q R s = R e s := rfl

theorem wp_act (f : σ → α × σ) : wp (act f : Handler ε σ α) Q R s = Q (f s).1 (f s).2 := rfl

theorem wp_update {Q : Unit → σ → Prop} (f : σ → σ) : wp (update f : Handler ε σ Unit) Q R s = Q () (f s) := rfl

theorem wp_get {Q : σ → σ → Prop} : wp (get : Handler ε σ σ) Q R s = Q s s := rfl

theorem wp_bind {f : α → Handler ε σ β} {Q : β → σ → Prop} :
    wp (x >>= f) Q R s = wp x (fun a s' => wp (f a) Q R s') R s := by
  have hexec : exec (x >>= f) s = match exec x s with
      | (.ok a, s') => exec (f a) s'
      | (.error e, s') => (.error e, s') := by
    change (ExceptT.bindCont f (x s).1 (x s).2) = _
    rcases hx : x s with ⟨_ | _, s'⟩ <;> simp only [exec, ExceptT.run, StateT.run, hx] <;> rfl
  unfold wp
  rw [hexec]
  rcases exec x s with ⟨_ | _, s'⟩ <;> rfl

theorem wp_map {f : α → β} {Q : β → σ → Prop} : wp (f <$> x) Q R s = wp x (fun a s' => Q (f a) s') R s := by
  rw [map_eq_pure_bind, wp_bind]
  simp only [wp_pure]

theorem wp_ite {p : Prop} [Decidable p] {y : Handler ε σ α} :
    wp (if p then x else y) Q R s = if p then wp x Q R s else wp y Q R s := by
  by_cases hp : p
  · rw [if_pos hp, if_pos hp]
  · rw [if_neg hp, if_neg hp]

theorem wp_refuseIf {p : Prop} [Decidable p] {e : ε} {Q : Unit → σ → Prop} :
    wp (refuseIf p e : Handler ε σ Unit) Q R s = if p then R e s else Q () s := by
  rw [refuseIf, wp_ite, wp_refuse, wp_pure]

/-- A test, each way on its own. -/
theorem of_ite {p a b : Prop} [Decidable p] (hpos : p → a) (hneg : ¬ p → b) : if p then a else b := by
  by_cases hp : p
  · rw [if_pos hp]
    exact hpos hp
  · rw [if_neg hp]
    exact hneg hp

/-- The rule of consequence. -/
theorem wp_mono (h : wp x Q R s) (hQ : ∀ a s', Q a s' → Q' a s') (hR : ∀ e s', R e s' → R' e s') : wp x Q' R' s := by
  unfold wp at h ⊢
  rcases hx : exec x s with ⟨_ | _, s'⟩
  · rw [hx] at h
    exact hR _ _ h
  · rw [hx] at h
    exact hQ _ _ h

theorem wp_orRefuse {δ : Type} {f : δ → ε} {r : Except δ α} (hok : ∀ a, r = .ok a → Q a s)
    (herror : ∀ d, r = .error d → R (f d) s) : wp (orRefuse f r) Q R s := by
  rcases r with d | a
  · exact herror d rfl
  · exact hok a rfl

end Handler
end Farland
