/-
# One at a time

Numbered requests go to a party that has one of them in hand at a time. A
request that it takes while it has another in hand drops the other without a
reply. `Ordered` says that the requests come in the order of their numbers
and that what was dropped was neither replied to nor the last one made.

Key theorems: `Ordered.make`, `Ordered.take`, `Ordered.finish`.
-/
import Mathlib.Data.List.Basic

namespace Farland
namespace OneAtATime

open List

structure Line where
  inHand : Option ℕ
  /-- On their way, oldest first. -/
  coming : List ℕ
  /-- Those whose reply is on its way. -/
  replied : List ℕ
  dropped : List ℕ
  /-- The number of the next request. -/
  next : ℕ

structure Ordered (l : Line) : Prop where
  increasing : (l.inHand.toList ++ l.coming).Pairwise (· < ·)
  below : ∀ n ∈ l.inHand.toList ++ l.coming, n < l.next
  repliedBelow : ∀ n ∈ l.replied, n < l.next
  past : ∀ n ∈ l.replied ++ l.dropped, ∀ m ∈ l.inHand.toList ++ l.coming, n < m
  superseded : ∀ n ∈ l.dropped, n + 1 < l.next
  apart : ∀ n ∈ l.replied, n ∉ l.dropped

variable {l : Line}

/-- A request is made. -/
theorem Ordered.make (h : Ordered l) : Ordered { l with coming := l.coming ++ [l.next], next := l.next + 1 } where
  increasing := by
    show (l.inHand.toList ++ (l.coming ++ [l.next])).Pairwise (· < ·)
    rw [← append_assoc]
    refine pairwise_append.mpr ⟨h.increasing, pairwise_singleton _ _, fun n hn m hm => ?_⟩
    rw [mem_singleton.mp hm]
    exact h.below n hn
  below n hn := by
    rw [← append_assoc] at hn
    rcases mem_append.mp hn with hn | hn
    · exact Nat.lt_succ_of_lt (h.below n hn)
    · rw [mem_singleton.mp hn]
      exact Nat.lt_succ_self _
  repliedBelow n hn := Nat.lt_succ_of_lt (h.repliedBelow n hn)
  past n hn m hm := by
    rw [← append_assoc] at hm
    rcases mem_append.mp hm with hm | hm
    · exact h.past n hn m hm
    · rw [mem_singleton.mp hm]
      rcases mem_append.mp hn with hn | hn
      · exact h.repliedBelow n hn
      · exact Nat.lt_of_succ_lt (h.superseded n hn)
  superseded n hn := Nat.lt_succ_of_lt (h.superseded n hn)
  apart := h.apart

/-- The first request that is on its way is taken in hand. -/
theorem Ordered.take (h : Ordered l) {n : ℕ} {rest : List ℕ} (hc : l.coming = n :: rest) :
    Ordered { l with inHand := some n, coming := rest, dropped := l.dropped ++ l.inHand.toList } := by
  have hsub : ∀ m ∈ n :: rest, m ∈ l.inHand.toList ++ l.coming := fun m hm => mem_append_right _ (hc ▸ hm)
  have hinc := pairwise_append.mp h.increasing
  have hn : ∀ m ∈ l.inHand.toList, ∀ k ∈ n :: rest, m < k := fun m hm k hk => hinc.2.2 m hm k (hc ▸ hk)
  have hrest : (n :: rest).Pairwise (· < ·) := hc ▸ hinc.2.1
  refine ⟨hrest, fun m hm => h.below m (hsub m hm), h.repliedBelow, fun m hm k hk => ?_, fun m hm => ?_,
    fun m hm hd => ?_⟩
  · rcases mem_append.mp hm with hm | hm
    · exact h.past m (mem_append_left _ hm) k (hsub k hk)
    · rcases mem_append.mp hm with hm | hm
      · exact h.past m (mem_append_right _ hm) k (hsub k hk)
      · exact hn m hm k hk
  · rcases mem_append.mp hm with hm | hm
    · exact h.superseded m hm
    · exact Nat.lt_of_le_of_lt (hn m hm n mem_cons_self) (h.below n (hsub n mem_cons_self))
  · rcases mem_append.mp hd with hd | hd
    · exact h.apart m hm hd
    · exact Nat.lt_irrefl m (h.past m (mem_append_left _ hm) m (mem_append_left _ hd))

/-- What is in hand goes without a reply, and without another in its place. -/
theorem Ordered.withdraw (h : Ordered l) : Ordered { l with inHand := none } where
  increasing := (pairwise_append.mp h.increasing).2.1
  below n hn := h.below n (mem_append_right _ hn)
  repliedBelow := h.repliedBelow
  past n hn m hm := h.past n hn m (mem_append_right _ hm)
  superseded := h.superseded
  apart := h.apart

/-- What is in hand is replied to. -/
theorem Ordered.finish (h : Ordered l) {n : ℕ} (hn : l.inHand = some n) :
    Ordered { l with inHand := none, replied := l.replied ++ [n] } := by
  have hin : n ∈ l.inHand.toList := Option.mem_toList.mpr hn
  have hw := h.withdraw
  refine ⟨hw.increasing, hw.below, fun m hm => ?_, fun m hm k hk => ?_, h.superseded, fun m hm hd => ?_⟩
  · rcases mem_append.mp hm with hm | hm
    · exact h.repliedBelow m hm
    · rw [mem_singleton.mp hm]
      exact h.below n (mem_append_left _ hin)
  · rcases mem_append.mp hm with hm | hm
    · rcases mem_append.mp hm with hm | hm
      · exact hw.past m (mem_append_left _ hm) k hk
      · rw [mem_singleton.mp hm]
        exact (pairwise_append.mp h.increasing).2.2 n hin k hk
    · exact hw.past m (mem_append_right _ hm) k hk
  · rcases mem_append.mp hm with hm | hm
    · exact h.apart m hm hd
    · rw [mem_singleton.mp hm] at hd
      exact Nat.lt_irrefl n (h.past n (mem_append_right _ hd) n (mem_append_left _ hin))

/-- Requests and replies are lost, or have arrived. -/
theorem Ordered.lose (h : Ordered l) {coming replied : List ℕ} (hc : coming.Sublist l.coming)
    (hr : replied ⊆ l.replied) : Ordered { l with coming, replied } := by
  have hsub : (l.inHand.toList ++ coming).Sublist (l.inHand.toList ++ l.coming) := hc.append_left _
  refine ⟨h.increasing.sublist hsub, fun n hn => h.below n (hsub.subset hn), fun n hn => h.repliedBelow n (hr hn),
    fun n hn m hm => ?_, h.superseded, fun n hn => h.apart n (hr hn)⟩
  refine h.past n ?_ m (hsub.subset hm)
  rcases mem_append.mp hn with hn | hn
  · exact mem_append_left _ (hr hn)
  · exact mem_append_right _ hn

end OneAtATime
end Farland
