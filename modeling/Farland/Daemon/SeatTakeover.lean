/-
# Logins at the machine

The gate between the D-Bus thread, on which a login at the machine waits, and
the daemon's loop, which asks the client (`seat_takeover.cpp`). Every path
without a clear answer lets the login through.
-/
import Farland.Daemon.Registry

namespace Farland
namespace Daemon

/-- A login waiting to be asked about. -/
structure Waiting where
  cookie : ℕ
  account : Text
  deriving DecidableEq

structure Pending where
  cookie : ℕ
  account : Text
  /-- The loop has it. -/
  taken : Bool := false
  /-- It has an answer. -/
  done : Bool := false
  allowed : Bool := true
  deriving DecidableEq

structure SeatTakeoverGate where
  pending : List Pending := []
  held : List Text := []
  nextCookie : ℕ := 1
  closed : Bool := false
  deriving DecidableEq

namespace SeatTakeoverGate

variable (g : SeatTakeoverGate)

/-- Somebody is logging in as `account`; a cookie to wait on when a client
holds that account's session. `emplace` keeps an entry that is there. -/
def begin (account : Text) : SeatTakeoverGate × Option ℕ :=
  if g.closed ∨ account ∉ g.held then (g, none)
  else
    ({ g with
       pending := if g.pending.any fun p => p.cookie == g.nextCookie then g.pending
         else g.pending ++ [{ cookie := g.nextCookie, account }]
       nextCookie := (g.nextCookie + 1) % 2 ^ 64 },
      some g.nextCookie)

/-- The end of `await`: the login has its answer, or gives up. -/
def awaited (cookie : ℕ) : SeatTakeoverGate × Bool :=
  ({ g with pending := g.pending.filter fun p => p.cookie != cookie },
    match g.pending.find? fun p => p.cookie == cookie with
    | none => true
    | some p => ! p.done || p.allowed)

def setHeldAccounts (accounts : List Text) : SeatTakeoverGate := { g with held := accounts }

/-- The logins nobody has been asked about yet. -/
def takeNew : SeatTakeoverGate × List Waiting :=
  ({ g with pending := g.pending.map fun p => if p.taken = false ∧
    p.done = false then { p with taken := true } else p },
    (g.pending.filter fun p => ! p.taken && ! p.done).map fun p => ⟨p.cookie, p.account⟩)

/-- The answer for a login; unknown cookies are ignored. -/
def resolve (cookie : ℕ) (allowed : Bool) : SeatTakeoverGate :=
  { g with pending := g.pending.map fun p => if p.cookie = cookie then { p with done := true, allowed } else p }

/-- farlandd is going away. -/
def releaseAll : SeatTakeoverGate :=
  { g with closed := true, pending := g.pending.map fun p => { p with done := true, allowed := true }, held := [] }

/-- A login goes straight through, or gets the next cookie. -/
theorem begin_cases (account : Text) :
    g.begin account = (g, none) ∨
    ∃ pending, g.begin account = ({ g with pending, nextCookie := (g.nextCookie + 1) % 2 ^ 64 }, some g.nextCookie) ∧
      (pending = g.pending ∨ pending = g.pending ++ [{ cookie := g.nextCookie, account }] ∧
        ∀ p ∈ g.pending, p.cookie ≠ g.nextCookie) := by
  unfold begin
  split_ifs with hclosed hany
  · exact .inl rfl
  · exact .inr ⟨_, rfl, .inl rfl⟩
  · refine .inr ⟨_, rfl, .inr ⟨rfl, fun p hp he => hany ?_⟩⟩
    rw [List.any_eq_true]
    exact ⟨p, hp, by simpa using he⟩

end SeatTakeoverGate
end Daemon
end Farland
