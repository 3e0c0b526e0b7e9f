/-
# Histories

A history is a list that grows at its end, and what it says about an entry is
said of what stands before it: `log = before ++ e :: after`. These are the
ways such a split of a longer history goes back to one of the shorter.
-/
import Mathlib.Data.List.Induction

namespace Farland
namespace History

open List

variable {α : Type} {log before after es : List α} {e x : α}

/-- A split of a longer history is one of the shorter, or at its end. -/
theorem split_snoc (h : log ++ [e] = before ++ x :: after) :
    (∃ rest, after = rest ++ [e] ∧ log = before ++ x :: rest) ∨ after = [] ∧ x = e ∧ log = before := by
  rcases eq_nil_or_concat after with rfl | ⟨rest, y, rfl⟩
  · right
    have := append_inj' h rfl
    exact ⟨rfl, by simpa using this.2.symm, this.1⟩
  · left
    rw [concat_eq_append, ← cons_append, ← append_assoc] at h
    have := append_inj' h rfl
    refine ⟨rest, ?_, this.1⟩
    simpa using this.2.symm

/-- A split at an entry that is not among the new ones. -/
theorem split_append (hx : x ∉ es) (h : log ++ es = before ++ x :: after) :
    ∃ rest, after = rest ++ es ∧ log = before ++ x :: rest := by
  induction es using List.reverseRecOn generalizing after with
  | nil => exact ⟨after, by simp, by simpa using h⟩
  | append_singleton es e ih =>
    rw [← append_assoc] at h
    rcases split_snoc h with ⟨rest, rfl, hshort⟩ | ⟨-, rfl, -⟩
    · obtain ⟨rest', rfl, hlog⟩ := ih (fun hm => hx (mem_append_left _ hm)) hshort
      exact ⟨rest', by simp, hlog⟩
    · exact absurd (mem_append_right _ (mem_singleton_self _)) hx

end History
end Farland
