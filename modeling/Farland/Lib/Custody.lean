/-
# Custody over two queues

A keeper writes down who holds a thing, and a holder serves it to one client
at a time. Grants travel to the holder in one queue, and what the holder says
travels back in the other: that it no longer serves somebody, or whom it
serves. The keeper writes a grant down when it sends it.

`Agrees` says what the two have in common at any time. With no grant on its
way, the record is the holder's client once all that is said has been read;
otherwise it is the last of the grants, of whom nothing has been said yet.

Key theorem: `Agrees.settled`.
-/
import Mathlib.Data.List.Basic

namespace Farland
namespace Custody

open List

variable {α : Type} [DecidableEq α]

/-- What the holder says. -/
inductive Notice (α : Type) where
  | ended (a : α)
  | serves (client : Option α)

/-- Whom a notice names. -/
def Notice.names : Notice α → List α
  | .ended a => [a]
  | .serves client => client.toList

/-- The record once a notice has been read. -/
def follow : Option α → Notice α → Option α
  | record, .ended a => if record = some a then none else record
  | none, .serves client => client
  | some a, .serves _ => some a

structure Link (α : Type) where
  /-- What the keeper has written down. -/
  record : Option α
  /-- Whom the holder serves. -/
  current : Option α
  grants : List α
  notices : List (Notice α)

/-- The record and the holder's client, up to what is on its way. -/
structure Agrees (l : Link α) : Prop where
  once : l.grants.Nodup
  idle : l.grants = [] → l.notices.foldl follow l.record = l.current
  last : ∀ a, l.grants.getLast? = some a → l.record = some a ∧ l.current ≠ some a ∧ ∀ n ∈ l.notices, a ∉ n.names

/-! ### Following the notices -/

@[simp] theorem follow_serves_none (record : Option α) : follow record (.serves none) = record := by
  cases record <;> rfl

@[simp] theorem follow_ended_self (a : α) : follow (some a) (.ended a) = none := if_pos rfl

@[simp] theorem follow_serves_self (record : Option α) : follow record (.serves record) = record := by
  cases record <;> rfl

variable {a : α}

/-- A notice about others leaves a record as it is. -/
theorem follow_of_notMem : ∀ {n : Notice α}, a ∉ n.names → follow (some a) n = some a
  | .ended b, h => if_neg fun he => h (by simp [Notice.names, Option.some.inj he])
  | .serves _, _ => rfl

theorem foldl_follow_of_notMem : ∀ {ns : List (Notice α)}, (∀ n ∈ ns, a ∉ n.names) →
    ns.foldl follow (some a) = some a
  | [], _ => rfl
  | n :: ns, h => by
    rw [foldl_cons, follow_of_notMem (h n mem_cons_self)]
    exact foldl_follow_of_notMem fun m hm => h m (mem_cons_of_mem _ hm)

/-- What is read ends up in the record, or was there. -/
theorem follow_mem {record : Option α} : ∀ {n : Notice α}, follow record n = some a →
    record = some a ∨ a ∈ n.names
  | .ended b, h => by
    rw [show follow record (.ended b) = if record = some b then none else record by cases record <;> rfl] at h
    split_ifs at h
    exact .inl h
  | .serves client, h => by
    cases record with
    | none => exact .inr (by simp only [follow] at h; simp [Notice.names, h])
    | some b => exact .inl h

theorem foldl_follow_mem : ∀ {ns : List (Notice α)} {record : Option α}, ns.foldl follow record = some a →
    record = some a ∨ ∃ n ∈ ns, a ∈ n.names
  | [], _, h => .inl h
  | n :: ns, record, h => by
    rcases foldl_follow_mem (show ns.foldl follow (follow record n) = some a from h) with h | ⟨m, hm, ha⟩
    · rcases follow_mem h with h | h
      · exact .inl h
      · exact .inr ⟨n, mem_cons_self, h⟩
    · exact .inr ⟨m, mem_cons_of_mem _ hm, ha⟩

/-! ### The steps of both -/

variable {l : Link α}

/-- With nothing on its way the two agree. -/
theorem Agrees.settled (h : Agrees l) (hg : l.grants = []) (hn : l.notices = []) : l.record = l.current := by
  have := h.idle hg
  rwa [hn] at this

/-- A keeper that knows nothing, and notices that say it all. -/
theorem agrees_anew {current : Option α} {notices : List (Notice α)} (h : notices.foldl follow none = current) :
    Agrees ⟨none, current, [], notices⟩ where
  once := nodup_nil
  idle _ := h
  last a ha := by cases ha

/-- The keeper grants, to somebody nothing is said about. -/
theorem Agrees.grant (h : Agrees l) (hc : l.current ≠ some a) (hg : a ∉ l.grants) (hn : ∀ n ∈ l.notices, a ∉ n.names) :
    Agrees { l with record := some a, grants := l.grants ++ [a] } where
  once := nodup_append.mpr ⟨h.once, by simp, fun x hx y hy he =>
    hg (by rw [mem_singleton] at hy; rwa [← hy, ← he])⟩
  idle he := by simp at he
  last b hb := by
    obtain rfl : a = b := by simpa using hb
    exact ⟨rfl, hc, hn⟩

/-- The keeper reads what was said first. -/
theorem Agrees.read (h : Agrees l) {n : Notice α} {ns : List (Notice α)} (hl : l.notices = n :: ns) :
    Agrees { l with record := follow l.record n, notices := ns } where
  once := h.once
  idle he := by
    have := h.idle he
    rwa [hl] at this
  last a ha := by
    obtain ⟨hr, hc, hn⟩ := h.last a ha
    rw [hl] at hn
    refine ⟨?_, hc, fun m hm => hn m (mem_cons_of_mem _ hm)⟩
    show follow l.record n = some a
    rw [hr]
    exact follow_of_notMem (hn n mem_cons_self)

/-- The keeper reads what was said up to some point. -/
theorem Agrees.readAll {l : Link α} (h : Agrees l) : ∀ {ns rest : List (Notice α)}, l.notices = ns ++ rest →
    Agrees { l with record := ns.foldl follow l.record, notices := rest }
  | [], rest, hl => by
    rw [nil_append] at hl
    rw [← hl]
    exact h
  | n :: ns, rest, hl => (h.read hl).readAll rfl

/-- The holder tells whom it serves. -/
theorem Agrees.tell (h : Agrees l) : Agrees { l with notices := l.notices ++ [.serves l.current] } where
  once := h.once
  idle he := by
    show (l.notices ++ [Notice.serves l.current]).foldl follow l.record = l.current
    rw [foldl_append, h.idle he]
    exact follow_serves_self _
  last a ha := by
    obtain ⟨hr, hc, hn⟩ := h.last a ha
    refine ⟨hr, hc, fun m hm => ?_⟩
    rcases mem_append.mp hm with hm | hm
    · exact hn m hm
    · rw [mem_singleton.mp hm]
      exact fun hin => hc (Option.mem_toList.mp hin)

/-- The holder tells it several times. -/
theorem Agrees.tellAll {l : Link α} (h : Agrees l) : ∀ count : ℕ,
    Agrees { l with notices := l.notices ++ List.replicate count (.serves l.current) }
  | 0 => by
    rw [replicate_zero, append_nil]
    exact h
  | count + 1 => by
    rw [replicate_succ', ← append_assoc]
    exact (h.tellAll count).tell

/-- The holder's client leaves. -/
theorem Agrees.leave (h : Agrees l) (hc : l.current = some a) :
    Agrees { l with current := none, notices := l.notices ++ [.ended a] } where
  once := h.once
  idle he := by
    show (l.notices ++ [Notice.ended a]).foldl follow l.record = none
    rw [foldl_append, h.idle he, hc]
    exact follow_ended_self a
  last b hb := by
    obtain ⟨hr, hcb, hn⟩ := h.last b hb
    refine ⟨hr, by simp, fun m hm => ?_⟩
    rcases mem_append.mp hm with hm | hm
    · exact hn m hm
    · rw [mem_singleton.mp hm]
      intro hin
      exact hcb (by rw [hc, mem_singleton.mp hin])

/-- The last of the grants after the first. -/
theorem Agrees.last_of_cons (h : Agrees l) {b : α} {gs : List α} (hg : l.grants = a :: gs) (hb : gs.getLast? = some b) :
    a ≠ b ∧ l.record = some b ∧ l.current ≠ some b ∧ ∀ n ∈ l.notices, b ∉ n.names := by
  refine ⟨?_, h.last b (by rw [hg, getLast?_cons, hb]; rfl)⟩
  rintro rfl
  have := h.once
  rw [hg] at this
  exact (nodup_cons.mp this).1 (mem_of_getLast? hb)

/-- The only grant is the record. -/
theorem Agrees.last_of_only (h : Agrees l) (hg : l.grants = [a]) :
    l.record = some a ∧ ∀ n ∈ l.notices, a ∉ n.names := by
  obtain ⟨hr, -, hn⟩ := h.last a (by rw [hg]; rfl)
  exact ⟨hr, hn⟩

/-- The holder, with nobody left, takes the first grant. -/
theorem Agrees.accept (h : Agrees l) {gs : List α} (hg : l.grants = a :: gs) :
    Agrees { l with current := some a, grants := gs } where
  once := by
    have := h.once
    rw [hg] at this
    exact (nodup_cons.mp this).2
  idle he := by
    obtain ⟨hr, hn⟩ := h.last_of_only (hg.trans (by rw [show gs = [] from he]))
    show l.notices.foldl follow l.record = some a
    rw [hr]
    exact foldl_follow_of_notMem hn
  last b hb := by
    obtain ⟨hab, hr, -, hn⟩ := h.last_of_cons hg hb
    exact ⟨hr, fun he => hab (Option.some.inj he), hn⟩

/-- The holder, with nobody left, refuses the first grant. -/
theorem Agrees.refuse (h : Agrees l) {gs : List α} (hg : l.grants = a :: gs) (hc : l.current = none) :
    Agrees { l with grants := gs, notices := l.notices ++ [.ended a] } where
  once := by
    have := h.once
    rw [hg] at this
    exact (nodup_cons.mp this).2
  idle he := by
    obtain ⟨hr, hn⟩ := h.last_of_only (hg.trans (by rw [show gs = [] from he]))
    show (l.notices ++ [Notice.ended a]).foldl follow l.record = l.current
    rw [foldl_append, hr, foldl_follow_of_notMem hn, hc]
    exact follow_ended_self a
  last b hb := by
    obtain ⟨hab, hr, hcb, hn⟩ := h.last_of_cons hg hb
    refine ⟨hr, hcb, fun m hm => ?_⟩
    rcases mem_append.mp hm with hm | hm
    · exact hn m hm
    · rw [mem_singleton.mp hm]
      exact fun hin => hab (mem_singleton.mp hin).symm

end Custody
end Farland
