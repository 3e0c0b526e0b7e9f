/-
# Items in flight

A sender ends items one after another and the receiver acknowledges them: an
acknowledgement is of an item and all those before it. Acknowledgements may be
suspended, and then items that end are not waited for until the next one, and
the exchange may be reset.

`unacked` says over the whole history what still waits: the items ended since
the last reset, suspension or acknowledged item that was waited for (`since`).
One equation per mark gives the same list step by step.
-/
import Mathlib.Tactic

namespace Farland
namespace InFlight

open List Nat

/-- What happens to the items. -/
inductive Mark (α : Type) where
  | ended (a : α)
  | acked (a : α)
  | suspended
  | reset
  deriving DecidableEq

variable {α : Type}

/-- Whether no acknowledgements come; the newest mark is first in a history. -/
def suspended : List (Mark α) → Bool
  | [] => false
  | .suspended :: _ => true
  | .reset :: _ | .acked _ :: _ => false
  | .ended _ :: h => suspended h

/-- The items ended with their places in the history, oldest first, but none
that ended while acknowledgements were suspended. -/
def ended : List (Mark α) → List (ℕ × α)
  | [] => []
  | .ended a :: h => if suspended h then ended h else ended h ++ [(h.length + 1, a)]
  | _ :: h => ended h

theorem ended_le : ∀ (h : List (Mark α)), ∀ e ∈ ended h, e.1 ≤ h.length
  | [], e, he => by simp [ended] at he
  | .ended a :: h, e, he => by
    rw [ended] at he
    split_ifs at he
    · exact (ended_le h e he).trans (le_succ _)
    · obtain hold | hnew := mem_append.mp he
      · exact (ended_le h e hold).trans (le_succ _)
      · obtain rfl := mem_singleton.mp hnew
        exact le_rfl
  | .acked _ :: h, e, he => (ended_le h e he).trans (le_succ _)
  | .suspended :: h, e, he => (ended_le h e he).trans (le_succ _)
  | .reset :: h, e, he => (ended_le h e he).trans (le_succ _)

theorem ended_sorted : ∀ (h : List (Mark α)), (ended h).Pairwise fun e f => e.1 < f.1
  | [] => .nil
  | .ended a :: h => by
    rw [ended]
    split_ifs
    · exact ended_sorted h
    · refine pairwise_append.mpr ⟨ended_sorted h, pairwise_singleton _ _, fun e he f hf => ?_⟩
      obtain rfl := mem_singleton.mp hf
      exact lt_succ_of_le (ended_le h e he)
  | .acked _ :: h => ended_sorted h
  | .suspended :: h => ended_sorted h
  | .reset :: h => ended_sorted h

/-- The later part of a sorted list. -/
theorem filter_lt_sorted {l before after : List (ℕ × α)} {e : ℕ × α} (hl : l.Pairwise fun e f => e.1 < f.1)
    (hsplit : l = before ++ e :: after) : (l.filter fun f => e.1 < f.1) = after := by
  subst hsplit
  obtain ⟨-, hafter, hbefore⟩ := pairwise_append.mp hl
  have hnone : (before.filter fun f => decide (e.1 < f.1)) = [] := by
    simp only [filter_eq_nil_iff, decide_eq_true_eq]
    intro f hf
    have hlt := hbefore f hf e (by simp)
    omega
  have hall : (after.filter fun f => decide (e.1 < f.1)) = after := by
    simp only [filter_eq_self, decide_eq_true_eq]
    exact (pairwise_cons.mp hafter).1
  rw [filter_append, hnone, filter_cons_of_neg (by simp), hall]
  rfl

variable [DecidableEq α]

/-- The last of the resets, the suspensions and the items that were
acknowledged while they were waited for. -/
def since : List (Mark α) → ℕ
  | [] => 0
  | .ended _ :: h => since h
  | .acked a :: h =>
    max (since h) ((((ended h).filter fun e => since h < e.1).find? fun e => e.2 = a).elim 0 Prod.fst)
  | .suspended :: h | .reset :: h => max (since h) (h.length + 1)

/-- The items ended since then. -/
def waiting (h : List (Mark α)) : List (ℕ × α) := (ended h).filter fun e => since h < e.1

def unacked (h : List (Mark α)) : List α := (waiting h).map Prod.snd

/-- No mark is later than the newest. -/
theorem since_le : ∀ (h : List (Mark α)), since h ≤ h.length
  | [] => le_rfl
  | .ended _ :: h => (since_le h).trans (le_succ _)
  | .suspended :: h => max_le ((since_le h).trans (le_succ _)) le_rfl
  | .reset :: h => max_le ((since_le h).trans (le_succ _)) le_rfl
  | .acked a :: h => by
    refine max_le ((since_le h).trans (le_succ _)) ?_
    cases hfind : ((ended h).filter fun e => since h < e.1).find? fun e => e.2 = a with
    | none => exact Nat.zero_le _
    | some e =>
      have hmem := mem_of_find?_eq_some hfind
      exact (ended_le h e (mem_of_mem_filter hmem)).trans (le_succ _)

/-- **An item that ends waits**, unless no acknowledgement will come. -/
theorem unacked_ended (a : α) (h : List (Mark α)) :
    unacked (.ended a :: h) = if suspended h then unacked h else unacked h ++ [a] := by
  unfold unacked waiting
  rw [ended, since]
  split_ifs
  · rfl
  · have hlast : since h < h.length + 1 := lt_succ_of_le (since_le h)
    simp [hlast]

/-- **Nothing waits after a suspension or a reset.** -/
theorem unacked_cleared {m : Mark α} (hm : m = .suspended ∨ m = .reset) (h : List (Mark α)) :
    unacked (m :: h) = [] := by
  have hnone : ∀ e ∈ ended h, ¬ max (since h) (h.length + 1) < e.1 := by
    intro e he
    have hle := ended_le h e he
    omega
  obtain rfl | rfl := hm
  all_goals
    unfold unacked waiting
    simp only [map_eq_nil_iff, filter_eq_nil_iff, decide_eq_true_eq]
    exact hnone

/-- **An acknowledgement is of the item and all before it**; one of an item that
nobody waits for changes nothing. -/
theorem unacked_acked (a : α) (h : List (Mark α)) : unacked (.acked a :: h) =
    if a ∈ unacked h then (unacked h).drop ((unacked h).idxOf a + 1) else unacked h := by
  have hsince : since (.acked a :: h) = max (since h) (((waiting h).find? fun e => e.2 = a).elim 0 Prod.fst) := rfl
  have hwaiting : waiting (.acked a :: h) = (ended h).filter fun e => since (.acked a :: h) < e.1 := rfl
  cases hfind : (waiting h).find? fun e => e.2 = a with
  | none =>
    have hnot : a ∉ unacked h := by
      intro ha
      obtain ⟨e, he, rfl⟩ := mem_map.mp ha
      have hne := find?_eq_none.mp hfind e he
      simp at hne
    rw [if_neg hnot, unacked, hwaiting, hsince, hfind]
    simp [unacked, waiting]
  | some e =>
    obtain ⟨hea, before, after, hsplit, hbefore⟩ := find?_eq_some_iff_append.mp hfind
    have hea : e.2 = a := by simpa using hea
    have hlater : since h < e.1 := by
      have hmem : e ∈ waiting h := hsplit ▸ mem_append_right _ (mem_cons_self ..)
      simpa using of_mem_filter hmem
    have hmap : unacked h = before.map Prod.snd ++ a :: after.map Prod.snd := by
      rw [unacked, hsplit, map_append, map_cons, hea]
    have hnot : a ∉ before.map Prod.snd := by
      intro ha
      obtain ⟨f, hf, hfa⟩ := mem_map.mp ha
      have hne := hbefore f hf
      simp [hfa] at hne
    have hsorted : (waiting h).Pairwise fun e f => e.1 < f.1 := (ended_sorted h).sublist filter_sublist
    have hafter : waiting (.acked a :: h) = after := by
      have hmax : since (.acked a :: h) = e.1 := by
        rw [hsince, hfind]
        exact max_eq_right hlater.le
      rw [← filter_lt_sorted hsorted hsplit, hwaiting, hmax, waiting, filter_filter]
      apply filter_congr
      intro f _
      by_cases hf : e.1 < f.1
      · simp [hlater.trans hf]
      · simp [hf]
    rw [unacked, hafter, hmap, idxOf_append_of_notMem hnot]
    rw [drop_append]
    simp

end InFlight
end Farland
