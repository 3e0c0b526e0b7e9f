/-
# Spans of a log

A log stands newest first. Some of its entries open a span, others end one,
and `current` is what the newest span says that is still open. `Apart` says
that no span opens in another.

Key theorems: `current_eq_some`, `ended_of_current_eq_none`, `Apart.cons`.
-/
import Mathlib.Data.List.Basic

namespace Farland
namespace Spans

variable {α β : Type} (opens : α → Option β) (ends : α → Bool)

/-- What the span says that is open after the log. -/
def current : List α → Option β
  | [] => none
  | e :: older =>
    match opens e with
    | some b => some b
    | none => if ends e then none else current older

/-- Between two entries that open a span there is one that ends it. -/
def Apart (log : List α) : Prop :=
  ∀ newer e' mid e older, log = newer ++ e' :: (mid ++ e :: older) → (opens e').isSome → (opens e).isSome →
    ∃ x ∈ mid, ends x = true

variable {opens ends} {log : List α} {e : α} {b : β}

theorem current_cons_open (h : opens e = some b) : current opens ends (e :: log) = some b := by
  unfold current
  rw [h]

theorem current_cons_end (ho : opens e = none) (he : ends e = true) : current opens ends (e :: log) = none := by
  unfold current
  rw [ho]
  exact if_pos he

theorem current_cons_other (ho : opens e = none) (he : ends e = false) :
    current opens ends (e :: log) = current opens ends log := by
  conv_lhs => unfold current
  rw [ho]
  exact if_neg (by simp [he])

/-- The open span has an entry that opened it, and nothing has ended it since. -/
theorem current_eq_some : ∀ {log : List α}, current opens ends log = some b →
    ∃ mid e older, log = mid ++ e :: older ∧ opens e = some b ∧ ∀ x ∈ mid, ends x = false
  | [], h => absurd h (by simp [current])
  | e :: older, h => by
    cases ho : opens e with
    | some b' =>
      rw [current_cons_open ho] at h
      exact ⟨[], e, older, rfl, ho.trans h, fun x hx => absurd hx (List.not_mem_nil)⟩
    | none =>
      cases he : ends e with
      | true =>
        rw [current_cons_end ho he] at h
        exact absurd h (by simp)
      | false =>
        rw [current_cons_other ho he] at h
        obtain ⟨mid, x, rest, rfl, hx, hmid⟩ := current_eq_some h
        refine ⟨e :: mid, x, rest, rfl, hx, ?_⟩
        intro y hy
        rcases List.mem_cons.mp hy with rfl | hy
        · exact he
        · exact hmid y hy

/-- With no span open, every span that was opened has ended. -/
theorem ended_of_current_eq_none : ∀ {log : List α}, current opens ends log = none →
    ∀ {mid older : List α} {e : α}, log = mid ++ e :: older → (opens e).isSome → ∃ x ∈ mid, ends x = true
  | _, h, [], older, e, heq, he => by
    subst heq
    obtain ⟨b, hb⟩ := Option.isSome_iff_exists.mp he
    rw [List.nil_append, current_cons_open hb] at h
    exact absurd h (by simp)
  | _, h, x :: mid, older, e, heq, he => by
    subst heq
    cases hx : opens x with
    | some b =>
      rw [List.cons_append, current_cons_open hx] at h
      exact absurd h (by simp)
    | none =>
      cases hend : ends x with
      | true => exact ⟨x, List.mem_cons_self, hend⟩
      | false =>
        rw [List.cons_append, current_cons_other hx hend] at h
        obtain ⟨y, hy, hyend⟩ := ended_of_current_eq_none h rfl he
        exact ⟨y, List.mem_cons_of_mem _ hy, hyend⟩

theorem apart_nil : Apart opens ends [] := by
  intro newer e' mid e older h
  exact absurd h (by simp)

/-- A span may open where none is open. -/
theorem Apart.cons (h : Apart opens ends log) (hfree : (opens e).isSome → current opens ends log = none) :
    Apart opens ends (e :: log) := by
  intro newer e' mid x older heq he' hx
  cases newer with
  | nil =>
    obtain ⟨rfl, rfl⟩ := List.cons.inj heq
    exact ended_of_current_eq_none (hfree he') rfl hx
  | cons y newer =>
    obtain ⟨-, rfl⟩ := List.cons.inj heq
    exact h newer e' mid x older rfl he' hx

end Spans
end Farland
