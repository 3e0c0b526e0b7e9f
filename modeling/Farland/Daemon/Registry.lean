/-
# The session registry

farlandd's sessions and the [policy] rules over them (`registry.cpp`): one
session for each local account, who may get a new one, which connection a
newer one replaces, and when a session has been idle or disconnected for too
long. The registry has no clock: a time is a number of nanoseconds that the
caller gives.

`findAccount` looks at the first session of an account only. A session that
is told to end stays in the list until its agent is gone, and a new one for
the same account goes behind it, so a third client is admitted by the one
that is ending.

Key theorems: `step_inv`, `run_oneLivePerAccount`, `twoLive_after_ending`.
-/
import Farland.Base.Reader

namespace Farland
namespace Daemon

open List

/-- A point in time or a duration of the steady clock, in nanoseconds. -/
abbrev Time := ℕ

def second : Time := 10 ^ 9

/-! ### [policy] -/

/-- What happens to a client whose account is logged in at a local seat. -/
inductive LocalSessionPolicy where
  | separate | attach | replace | refuse
  deriving DecidableEq

inductive TakeoverPolicy where
  | ask | always | never
  deriving DecidableEq

def TakeoverPolicy.toText : TakeoverPolicy → Text
  | .ask => text "ask"
  | .always => text "always"
  | .never => text "never"

inductive TakeoverDefault where
  | allow | deny
  deriving DecidableEq

def TakeoverDefault.toText : TakeoverDefault → Text
  | .allow => text "allow"
  | .deny => text "deny"

/-- The settings the session rules read; durations in seconds. -/
structure PolicySection where
  disconnectedTimeout : ℕ := 0
  idleTimeout : ℕ := 0
  maxSessions : ℕ := 0
  onLocalSession : LocalSessionPolicy := .separate
  takeover : TakeoverPolicy := .ask
  takeoverTimeout : ℕ := 30
  takeoverOnTimeout : TakeoverDefault := .allow
  seatTakeover : TakeoverPolicy := .ask
  deriving DecidableEq

/-! ### Sessions -/

inductive SessionState where
  | starting | running | ending
  deriving DecidableEq

structure Session where
  id : ℕ
  account : Text
  state : SessionState := .starting
  /-- It shows the user's local session. -/
  attached : Bool := false
  /-- The client connected now; 0: none. -/
  connection : ℕ := 0
  disconnectedSince : Option Time := none
  idleSeconds : ℕ := 0
  idleDisconnectSent : Bool := false
  deriving DecidableEq

inductive Admission where
  | existing | create | attachLocal | replaceLocal | separateLocal | refuseLocalSession | refuseLimit
  deriving DecidableEq

/-- The answers that start a session. -/
def Admission.starts : Admission → Bool
  | .create | .attachLocal | .replaceLocal | .separateLocal => true
  | .existing | .refuseLocalSession | .refuseLimit => false

structure Decision where
  admission : Admission := .create
  session : ℕ := 0
  errorInfo : ℕ := 0
  reason : Text := []
  deriving DecidableEq

inductive ActionKind where
  | disconnectIdle | terminateDisconnected
  deriving DecidableEq

structure Action where
  kind : ActionKind
  session : ℕ
  connection : ℕ
  deriving DecidableEq

structure SessionRegistry where
  policy : PolicySection := {}
  sessions : List Session := []
  nextId : ℕ := 1
  deriving DecidableEq

variable {r : SessionRegistry} {n session id : ℕ} {a : Action} {f : Session → Session} {now : Time}
  {account : Text}

namespace SessionRegistry

/-- [MS-RDPBCGR] 2.2.5.1.1. -/
def errinfoServerDeniedConnection : ℕ := 0x00000007

def find (r : SessionRegistry) (session : ℕ) : Option Session := r.sessions.find? fun s => s.id == session

def findAccount (r : SessionRegistry) (account : Text) : Option Session :=
  r.sessions.find? fun s => s.account == account

/-- What to do with an authenticated connection for `account`. -/
def admitAccount (r : SessionRegistry) (account : Text) (localSession : Bool) : Decision :=
  let elsewhere : Decision :=
    if localSession ∧ r.policy.onLocalSession = .refuse then
      { admission := .refuseLocalSession, errorInfo := errinfoServerDeniedConnection
        reason := account ++ text " is logged in at a local seat and on_local_session = \"refuse\"" }
    else
      let live := r.sessions.countP fun s => s.state != .ending
      if r.policy.maxSessions ≠ 0 ∧ r.policy.maxSessions ≤ live then
        { admission := .refuseLimit, errorInfo := errinfoServerDeniedConnection
          reason := text s!"max_sessions = {r.policy.maxSessions} reached" }
      else if localSession then
        match r.policy.onLocalSession with
        | .separate =>
          { admission := .separateLocal
            reason := account ++ text (" is logged in at a local seat and on_local_session = \"separate\": that " ++
              "session keeps running, and this connection gets a desktop of its own") }
        | .replace =>
          { admission := .replaceLocal
            reason := account ++ text (" is logged in at a local seat and on_local_session = \"replace\": that " ++
              "session ends, with the applications running in it") }
        | _ => { admission := .attachLocal }
      else { admission := .create }
  match r.findAccount account with
  | some s => if s.state ≠ .ending then { admission := .existing, session := s.id } else elsewhere
  | none => elsewhere

/-- A new session, starting; its id is the next 32-bit number. -/
def create (r : SessionRegistry) (account : Text) (attached : Bool) (now : Time) : SessionRegistry × ℕ :=
  ({ r with
     sessions := r.sessions ++ [{ id := r.nextId, account, attached, disconnectedSince := some now }]
     nextId := (r.nextId + 1) % 2 ^ 32 }, r.nextId)

/-- A session that outlived a restart, with the id it had. -/
def restore (r : SessionRegistry) (id : ℕ) (account : Text) (attached : Bool) (now : Time) : SessionRegistry :=
  if id = 0 ∨ (r.find id).isSome then r
  else
    { r with
      sessions := r.sessions ++ [{ id, account, attached, disconnectedSince := some now }]
      nextId := max r.nextId ((id + 1) % 2 ^ 32) }

/-- Changes the session that `get` finds. -/
def updateFirst (session : ℕ) (f : Session → Session) : List Session → List Session
  | [] => []
  | s :: rest => if s.id = session then f s :: rest else s :: updateFirst session f rest

def update (r : SessionRegistry) (session : ℕ) (f : Session → Session) : SessionRegistry :=
  { r with sessions := updateFirst session f r.sessions }

def setRunning (r : SessionRegistry) (session : ℕ) : SessionRegistry :=
  r.update session fun s => if s.state = .starting then { s with state := .running } else s

/-- Also gives the connection that is replaced, 0 for none. -/
def connect (r : SessionRegistry) (session connection : ℕ) : SessionRegistry × ℕ :=
  (r.update session fun s =>
      { s with connection := connection, disconnectedSince := none, idleSeconds := 0, idleDisconnectSent := false },
    match r.find session with
    | some s => s.connection
    | none => 0)

def disconnected (r : SessionRegistry) (session connection : ℕ) (now : Time) : SessionRegistry :=
  r.update session fun s =>
    if s.connection ≠ connection ∨ connection = 0 then s
    else { s with connection := 0, disconnectedSince := some now, idleSeconds := 0 }

def updateIdle (r : SessionRegistry) (session connection idleSeconds : ℕ) : SessionRegistry :=
  r.update session fun s => if s.connection = connection ∧ connection ≠ 0 then { s with idleSeconds } else s

/-- A connection the registry does not know, which the agent says it serves. -/
def adoptConnection (r : SessionRegistry) (session connection : ℕ) : SessionRegistry :=
  r.update session fun s =>
    if connection = 0 ∨ s.connection ≠ 0 then s
    else { s with connection := connection, disconnectedSince := none, idleDisconnectSent := false }

def setEnding (r : SessionRegistry) (session : ℕ) : SessionRegistry :=
  r.update session fun s => { s with state := .ending }

def remove (r : SessionRegistry) (session : ℕ) : SessionRegistry :=
  { r with sessions := r.sessions.filter fun s => s.id != session }

/-- What the policies call for one session. -/
def dueSession (policy : PolicySection) (now : Time) (s : Session) : Session × List Action :=
  let overdue : Bool := match s.disconnectedSince with
    | some since => since + policy.disconnectedTimeout * second ≤ now
    | none => false
  if s.state ≠ .running then (s, [])
  else if s.connection = 0 ∧ 0 < policy.disconnectedTimeout ∧ overdue then
    ({ s with state := .ending }, [⟨.terminateDisconnected, s.id, 0⟩])
  else if s.connection ≠ 0 ∧ 0 < policy.idleTimeout ∧ s.idleDisconnectSent = false ∧
      policy.idleTimeout ≤ s.idleSeconds then
    ({ s with idleDisconnectSent := true }, [⟨.disconnectIdle, s.id, s.connection⟩])
  else (s, [])

def due (r : SessionRegistry) (now : Time) : SessionRegistry × List Action :=
  ({ r with sessions := r.sessions.map fun s => (dueSession r.policy now s).1 },
    r.sessions.flatMap fun s => (dueSession r.policy now s).2)

/-! ### Runs -/

/-- One call, by its arguments. `arrive` is an authenticated client: `create`
is called when `admitAccount` has just answered that a session is to start. -/
inductive Op where
  | arrive (account : Text) (localSession attached : Bool) (now : Time)
  | setRunning (session : ℕ)
  | connect (session connection : ℕ)
  | disconnected (session connection : ℕ) (now : Time)
  | adoptConnection (session connection : ℕ)
  | updateIdle (session connection idleSeconds : ℕ)
  | setEnding (session : ℕ)
  | remove (session : ℕ)
  | due (now : Time)
  deriving DecidableEq

def step (r : SessionRegistry) : Op → SessionRegistry
  | .arrive account localSession attached now =>
    if (r.admitAccount account localSession).admission.starts then (r.create account attached now).1 else r
  | .setRunning session => r.setRunning session
  | .connect session connection => (r.connect session connection).1
  | .disconnected session connection now => r.disconnected session connection now
  | .adoptConnection session connection => r.adoptConnection session connection
  | .updateIdle session connection idleSeconds => r.updateIdle session connection idleSeconds
  | .setEnding session => r.setEnding session
  | .remove session => r.remove session
  | .due now => (r.due now).1

def run (r : SessionRegistry) (ops : List Op) : SessionRegistry := ops.foldl step r

/-- A session read from the table at the start. -/
structure Restored where
  id : ℕ
  account : Text
  attached : Bool
  now : Time
  deriving DecidableEq

/-- The registry of a farlandd that has just read its table. -/
def start (policy : PolicySection) (table : List Restored) : SessionRegistry :=
  table.foldl (fun r e => r.restore e.id e.account e.attached e.now) { policy }

/-- Whether a call creates a session, as a number. -/
def creates (r : SessionRegistry) : Op → ℕ
  | .arrive account localSession _ _ => (r.admitAccount account localSession).admission.starts.toNat
  | _ => 0

/-- How many sessions a run creates. -/
def creations (r : SessionRegistry) : List Op → ℕ
  | [] => 0
  | op :: ops => r.creates op + creations (r.step op) ops

/-! ### What holds of a registry -/

/-- One live session for each account, and what the policies rely on. -/
structure OneLivePerAccount (r : SessionRegistry) : Prop where
  atMostOne : ∀ account, r.sessions.countP (fun s => s.account == account && s.state != .ending) ≤ 1
  admitted : ∀ s ∈ r.sessions, s.state ≠ .ending → ∀ localSession,
    r.admitAccount s.account localSession = { admission := .existing, session := s.id }
  ids : (r.sessions.map (·.id)).Nodup
  idsNonzero : ∀ s ∈ r.sessions, s.id ≠ 0
  since : ∀ s ∈ r.sessions, s.disconnectedSince.isSome ↔ s.connection = 0
  terminates : ∀ now, ∀ a ∈ (r.due now).2, a.kind = .terminateDisconnected →
    ∀ s ∈ r.sessions, s.id = a.session → s.connection = 0
  dueOnce : ∀ now, (r.due now).2.Nodup

/-- The calls that leave it so: no client arrives for an account whose
session is still ending, and a connection has a number. -/
def Keeps (r : SessionRegistry) : Op → Prop
  | .arrive account _ _ _ => ∀ s ∈ r.sessions, s.account = account → s.state ≠ .ending
  | .connect _ connection => connection ≠ 0
  | _ => True

instance (r : SessionRegistry) (op : Op) : Decidable (r.Keeps op) :=
  match op with
  | .arrive account _ _ _ => inferInstanceAs (Decidable (∀ s ∈ r.sessions, s.account = account → s.state ≠ .ending))
  | .connect _ connection => inferInstanceAs (Decidable (connection ≠ 0))
  | .setRunning _ | .disconnected _ _ _ | .adoptConnection _ _ | .updateIdle _ _ _ | .setEnding _ | .remove _
  | .due _ => inferInstanceAs (Decidable True)

/-- The invariant, with `remaining` sessions still to be created. -/
structure Inv (remaining : ℕ) (r : SessionRegistry) : Prop where
  accounts : (r.sessions.map (·.account)).Nodup
  ids : (r.sessions.map (·.id)).Nodup
  idsNonzero : ∀ s ∈ r.sessions, s.id ≠ 0
  since : ∀ s ∈ r.sessions, s.disconnectedSince.isSome ↔ s.connection = 0
  fresh : remaining = 0 ∨ 0 < r.nextId ∧ r.nextId + remaining ≤ 2 ^ 32 ∧ ∀ s ∈ r.sessions, s.id < r.nextId

/-! ### Changing one session -/

theorem mem_updateFirst {s : Session} : ∀ {l : List Session},
    s ∈ updateFirst session f l → s ∈ l ∨ ∃ s0 ∈ l, s0.id = session ∧ s = f s0
  | [], h => by cases h
  | a :: l, h => by
    unfold updateFirst at h
    by_cases ha : a.id = session
    · rw [if_pos ha] at h
      rcases mem_cons.mp h with rfl | h
      · exact .inr ⟨a, mem_cons_self, ha, rfl⟩
      · exact .inl (mem_cons_of_mem _ h)
    · rw [if_neg ha] at h
      rcases mem_cons.mp h with rfl | h
      · exact .inl mem_cons_self
      · rcases mem_updateFirst h with h | ⟨s0, h0, hid, rfl⟩
        · exact .inl (mem_cons_of_mem _ h)
        · exact .inr ⟨s0, mem_cons_of_mem _ h0, hid, rfl⟩

theorem map_updateFirst {α : Type} (g : Session → α)
    (hg : ∀ s, g (f s) = g s) : ∀ l : List Session, (updateFirst session f l).map g = l.map g
  | [] => rfl
  | a :: l => by
    unfold updateFirst
    by_cases ha : a.id = session
    · rw [if_pos ha, map_cons, map_cons, hg]
    · rw [if_neg ha, map_cons, map_cons, map_updateFirst g hg l]

/-- A change of one session that keeps its identity. -/
structure Minor (f : Session → Session) : Prop where
  id : ∀ s, (f s).id = s.id
  account : ∀ s, (f s).account = s.account
  since : ∀ s, (s.disconnectedSince.isSome ↔ s.connection = 0) → ((f s).disconnectedSince.isSome ↔ (f s).connection = 0)

theorem update_inv {remaining : ℕ} (h : Inv remaining r) (session : ℕ)
    (hf : Minor f) : Inv remaining (r.update session f) where
  accounts := by
    rw [update, map_updateFirst _ hf.account]
    exact h.accounts
  ids := by
    rw [update, map_updateFirst _ hf.id]
    exact h.ids
  idsNonzero := by
    intro s hs
    rcases mem_updateFirst hs with hs | ⟨s0, h0, _, rfl⟩
    · exact h.idsNonzero s hs
    · rw [hf.id]
      exact h.idsNonzero s0 h0
  since := by
    intro s hs
    rcases mem_updateFirst hs with hs | ⟨s0, h0, _, rfl⟩
    · exact h.since s hs
    · exact hf.since s0 (h.since s0 h0)
  fresh := by
    rcases h.fresh with h0 | ⟨hpos, hle, hlt⟩
    · exact .inl h0
    · refine .inr ⟨hpos, hle, fun s hs => ?_⟩
      rcases mem_updateFirst hs with hs | ⟨s0, h0, _, rfl⟩
      · exact hlt s hs
      · rw [hf.id]
        exact hlt s0 h0

theorem minor_setRunning : Minor fun s => if s.state = .starting then { s with state := .running } else s := by
  constructor <;> intro s <;> split <;> simp

theorem minor_connect {connection : ℕ} (h : connection ≠ 0) : Minor fun s =>
    { s with connection := connection, disconnectedSince := none, idleSeconds := 0, idleDisconnectSent := false } :=
  ⟨fun _ => rfl, fun _ => rfl, fun _ _ => by simp [h]⟩

theorem minor_disconnected (connection : ℕ) (now : Time) : Minor fun s =>
    if s.connection ≠ connection ∨ connection = 0 then s
    else { s with connection := 0, disconnectedSince := some now, idleSeconds := 0 } := by
  constructor <;> intro s <;> split <;> simp

theorem minor_adoptConnection (connection : ℕ) : Minor fun s =>
    if connection = 0 ∨ s.connection ≠ 0 then s
    else { s with connection := connection, disconnectedSince := none, idleDisconnectSent := false } := by
  constructor <;> intro s <;> split
  · rfl
  · rfl
  · rfl
  · rfl
  · exact id
  · rename_i h
    rw [not_or] at h
    simp [h.1]

theorem minor_updateIdle (connection idleSeconds : ℕ) : Minor fun s =>
    if s.connection = connection ∧ connection ≠ 0 then { s with idleSeconds } else s := by
  constructor <;> intro s <;> split <;> simp

theorem minor_setEnding : Minor fun s => { s with state := .ending } := ⟨fun _ => rfl, fun _ => rfl, fun _ => id⟩

/-! ### The policies -/

variable (policy : PolicySection)

theorem dueSession_minor (now : Time) : Minor fun s => (dueSession policy now s).1 := by
  constructor <;> intro s <;> simp only [dueSession] <;> split_ifs <;> simp

/-- What a policy can call for. -/
theorem mem_dueSession {policy : PolicySection} {s : Session} (h : a ∈ (dueSession policy now s).2) :
    (a = ⟨.terminateDisconnected, s.id, 0⟩ ∧ s.connection = 0 ∧ s.state = .running ∧
        (dueSession policy now s).1.state = .ending) ∨
      (a = ⟨.disconnectIdle, s.id, s.connection⟩ ∧ s.connection ≠ 0 ∧ s.idleDisconnectSent = false ∧
        (dueSession policy now s).1.idleDisconnectSent = true) := by
  unfold dueSession at h ⊢
  dsimp only at h ⊢
  split_ifs at h ⊢ with h1 h2 h3
  · cases h
  · exact .inl ⟨mem_singleton.mp h, h2.1, not_not.mp h1, rfl⟩
  · exact .inr ⟨mem_singleton.mp h, h3.1, h3.2.2.1, rfl⟩
  · cases h

theorem dueSession_nodup (now : Time) (s : Session) : (dueSession policy now s).2.Nodup := by
  unfold dueSession
  dsimp only
  split_ifs <;> simp

theorem mem_due (h : a ∈ (r.due now).2) :
    ∃ s ∈ r.sessions, a ∈ (dueSession r.policy now s).2 ∧ a.session = s.id := by
  obtain ⟨s, hs, ha⟩ := mem_flatMap.mp h
  refine ⟨s, hs, ha, ?_⟩
  rcases mem_dueSession ha with ⟨rfl, _⟩ | ⟨rfl, _⟩ <;> rfl

theorem due_nodup (hids : (r.sessions.map (·.id)).Nodup) (now : Time) : (r.due now).2.Nodup := by
  unfold due
  rw [nodup_flatMap]
  refine ⟨fun s _ => dueSession_nodup r.policy now s, ?_⟩
  refine (pairwise_map.mp hids).imp ?_
  intro s t hne a has hat
  have h1 : a.session = s.id := by rcases mem_dueSession has with ⟨rfl, _⟩ | ⟨rfl, _⟩ <;> rfl
  have h2 : a.session = t.id := by rcases mem_dueSession hat with ⟨rfl, _⟩ | ⟨rfl, _⟩ <;> rfl
  exact hne (h1.symm.trans h2)

theorem due_inv {remaining : ℕ} (h : Inv remaining r) (now : Time) :
    Inv remaining (r.due now).1 := by
  have hf := dueSession_minor r.policy now
  have hmem : ∀ s ∈ (r.due now).1.sessions, ∃ s0 ∈ r.sessions, s = (dueSession r.policy now s0).1 := by
    intro s hs
    obtain ⟨s0, h0, rfl⟩ := mem_map.mp hs
    exact ⟨s0, h0, rfl⟩
  refine ⟨?_, ?_, fun s hs => ?_, fun s hs => ?_, ?_⟩
  · rw [due, map_map]
    exact (map_congr_left fun s _ => hf.account s) ▸ h.accounts
  · rw [due, map_map]
    exact (map_congr_left fun s _ => hf.id s) ▸ h.ids
  · obtain ⟨s0, h0, rfl⟩ := hmem s hs
    rw [hf.id]
    exact h.idsNonzero s0 h0
  · obtain ⟨s0, h0, rfl⟩ := hmem s hs
    exact hf.since s0 (h.since s0 h0)
  · rcases h.fresh with h0 | ⟨hpos, hle, hlt⟩
    · exact .inl h0
    · refine .inr ⟨hpos, hle, fun s hs => ?_⟩
      obtain ⟨s0, h0, rfl⟩ := hmem s hs
      rw [hf.id]
      exact hlt s0 h0

/-! ### Sessions that start -/

theorem Inv.mono {m : ℕ} (h : Inv m r) (hle : n ≤ m) : Inv n r := by
  refine ⟨h.accounts, h.ids, h.idsNonzero, h.since, ?_⟩
  rcases h.fresh with h0 | ⟨hpos, hbound, hlt⟩
  · exact .inl (by omega)
  · exact .inr ⟨hpos, by omega, hlt⟩

theorem findAccount_eq_none (h : r.findAccount account = none) :
    ∀ s ∈ r.sessions, s.account ≠ account := by
  intro s hs
  simpa using find?_eq_none.mp h s hs

/-- A session behind the others, with an account and an id of its own. -/
theorem push_inv (h : Inv n r) {nextId : ℕ} {attached : Bool}
    (hacc : ∀ s ∈ r.sessions, s.account ≠ account) (hid : id ≠ 0) (hids : ∀ s ∈ r.sessions, s.id ≠ id)
    (hfresh : n = 0 ∨ 0 < nextId ∧ nextId + n ≤ 2 ^ 32 ∧ id < nextId ∧ ∀ s ∈ r.sessions, s.id < nextId) :
    Inv n { r with
            sessions := r.sessions ++ [{ id, account, attached, disconnectedSince := some now }]
            nextId } where
  accounts := by
    rw [map_append, nodup_append]
    refine ⟨h.accounts, nodup_singleton _, fun a ha b hb => ?_⟩
    obtain ⟨s, hs, rfl⟩ := mem_map.mp ha
    rw [mem_singleton.mp hb]
    exact hacc s hs
  ids := by
    rw [map_append, nodup_append]
    refine ⟨h.ids, nodup_singleton _, fun a ha b hb => ?_⟩
    obtain ⟨s, hs, rfl⟩ := mem_map.mp ha
    rw [mem_singleton.mp hb]
    exact hids s hs
  idsNonzero := by
    intro s hs
    rcases mem_append.mp hs with hs | hs
    · exact h.idsNonzero s hs
    · rw [mem_singleton.mp hs]
      exact hid
  since := by
    intro s hs
    rcases mem_append.mp hs with hs | hs
    · exact h.since s hs
    · rw [mem_singleton.mp hs]
      simp
  fresh := by
    rcases hfresh with h0 | ⟨hpos, hbound, hlt, hall⟩
    · exact .inl h0
    · refine .inr ⟨hpos, hbound, fun s hs => ?_⟩
      rcases mem_append.mp hs with hs | hs
      · exact hall s hs
      · rw [mem_singleton.mp hs]
        exact hlt

theorem create_inv (h : Inv (n + 1) r)
    (hacc : r.findAccount account = none) (attached : Bool) (now : Time) : Inv n (r.create account attached now).1 := by
  obtain h0 | ⟨hpos, hbound, hlt⟩ := h.fresh
  · omega
  refine push_inv (h.mono (Nat.le_succ n)) (findAccount_eq_none hacc) hpos.ne' (fun s hs => (hlt s hs).ne) ?_
  by_cases hn : n = 0
  · exact .inl hn
  · exact .inr ⟨by omega, by omega, by omega, fun s hs => by have := hlt s hs; omega⟩

theorem find_isSome : (r.find id).isSome ↔ ∃ s ∈ r.sessions, s.id = id := by
  simp [find]

theorem find?_updateFirst (hf : ∀ s, (f s).id = s.id) : ∀ l : List Session,
    (updateFirst session f l).find? (fun s => s.id == session) = (l.find? fun s => s.id == session).map f
  | [] => rfl
  | a :: l => by
    unfold updateFirst
    by_cases ha : a.id = session
    · rw [if_pos ha, find?_cons_of_pos (by simpa [hf] using ha), find?_cons_of_pos (by simpa using ha)]
      rfl
    · rw [if_neg ha, find?_cons_of_neg (by simpa using ha), find?_cons_of_neg (by simpa using ha)]
      exact find?_updateFirst hf l

/-- What an operation leaves in the record of its session. -/
theorem find_update (hf : ∀ s, (f s).id = s.id) :
    (r.update session f).find session = (r.find session).map f := find?_updateFirst hf r.sessions

theorem mem_restore {attached : Bool} {s : Session}
    (h : s ∈ (r.restore id account attached now).sessions) : s ∈ r.sessions ∨ s.account = account := by
  unfold restore at h
  by_cases htaken : id = 0 ∨ (r.find id).isSome
  · rw [if_pos htaken] at h
    exact .inl h
  · rw [if_neg htaken] at h
    rcases mem_append.mp h with h | h
    · exact .inl h
    · rw [mem_singleton.mp h]
      exact .inr rfl

theorem restore_inv (h : Inv n r)
    (hacc : ∀ s ∈ r.sessions, s.account ≠ account) (hid : id + n < 2 ^ 32) (attached : Bool) (now : Time) :
    Inv n (r.restore id account attached now) := by
  unfold restore
  by_cases htaken : id = 0 ∨ (r.find id).isSome
  · rw [if_pos htaken]
    exact h
  rw [if_neg htaken]
  rw [not_or, find_isSome] at htaken
  refine push_inv h hacc htaken.1 (fun s hs he => htaken.2 ⟨s, hs, he⟩) ?_
  rcases h.fresh with h0 | ⟨hpos, hbound, hlt⟩
  · exact .inl h0
  · by_cases hn : n = 0
    · exact .inl hn
    · exact .inr ⟨by omega, by omega, by omega, fun s hs => by have := hlt s hs; omega⟩

theorem remove_inv (h : Inv n r) (session : ℕ) : Inv n (r.remove session) := by
  have hsub := filter_sublist (l := r.sessions) (p := fun s => s.id != session)
  refine ⟨h.accounts.sublist (hsub.map _), h.ids.sublist (hsub.map _), fun s hs => h.idsNonzero s (hsub.subset hs),
    fun s hs => h.since s (hsub.subset hs), ?_⟩
  rcases h.fresh with h0 | ⟨hpos, hbound, hlt⟩
  · exact .inl h0
  · exact .inr ⟨hpos, hbound, fun s hs => hlt s (hsub.subset hs)⟩

/-- A client that starts a session found none of its account's. -/
theorem findAccount_of_starts {localSession : Bool} (hstarts : (r.admitAccount account localSession).admission.starts)
    (hend : ∀ s ∈ r.sessions, s.account = account → s.state ≠ .ending) : r.findAccount account = none := by
  by_contra hne
  obtain ⟨s, hs⟩ := Option.ne_none_iff_exists'.mp hne
  have hacc : s.account = account := by simpa using find?_some hs
  have hlive : s.state ≠ .ending := hend s (mem_of_find?_eq_some hs) hacc
  unfold admitAccount at hstarts
  rw [hs] at hstarts
  dsimp only at hstarts
  rw [if_pos hlive] at hstarts
  cases hstarts

/-- **What one operation preserves.** -/
theorem step_inv {op : Op} (h : Inv (r.creates op + n) r) (hk : r.Keeps op) :
    Inv n (r.step op) := by
  have h' : Inv n r := h.mono (Nat.le_add_left _ _)
  cases op with
  | arrive account localSession attached now =>
    unfold step
    dsimp only
    by_cases hs : (r.admitAccount account localSession).admission.starts = true
    · rw [if_pos hs]
      refine create_inv ?_ (findAccount_of_starts hs hk) attached now
      rwa [creates, hs, Nat.add_comm] at h
    · rw [if_neg hs]
      exact h'
  | setRunning session => exact update_inv h' session minor_setRunning
  | connect session connection => exact update_inv h' session (minor_connect hk)
  | disconnected session connection now => exact update_inv h' session (minor_disconnected connection now)
  | adoptConnection session connection => exact update_inv h' session (minor_adoptConnection connection)
  | updateIdle session connection idleSeconds => exact update_inv h' session (minor_updateIdle connection idleSeconds)
  | setEnding session => exact update_inv h' session minor_setEnding
  | remove session => exact remove_inv h' session
  | due now => exact due_inv h' now

theorem start_inv {table : List Restored} (hacc : (table.map (·.account)).Nodup) (hid : ∀ e ∈ table, e.id + n < 2 ^ 32)
    (hn : n < 2 ^ 32) : Inv n (start policy table) := by
  have hfold : ∀ (l : List Restored) (r : SessionRegistry), Inv n r → (l.map (·.account)).Nodup →
      (∀ e ∈ l, e.id + n < 2 ^ 32) → (∀ e ∈ l, ∀ s ∈ r.sessions, s.account ≠ e.account) →
      Inv n (l.foldl (fun r e => r.restore e.id e.account e.attached e.now) r) := by
    intro l
    induction l with
    | nil => exact fun r h _ _ _ => h
    | cons e l ih =>
      intro r h hnodup hids hsep
      rw [map_cons, nodup_cons] at hnodup
      refine ih _ (restore_inv h (hsep e mem_cons_self) (hids e mem_cons_self) e.attached e.now) hnodup.2
        (fun x hx => hids x (mem_cons_of_mem _ hx)) fun x hx s hs => ?_
      rcases mem_restore hs with hs | hs
      · exact hsep x (mem_cons_of_mem _ hx) s hs
      · rw [hs]
        exact fun he => hnodup.1 (mem_map.mpr ⟨x, hx, he.symm⟩)
  refine hfold table { policy } ⟨nodup_nil, nodup_nil, ?_, ?_, ?_⟩ hacc hid ?_
  · exact fun s hs => by cases hs
  · exact fun s hs => by cases hs
  · exact .inr ⟨Nat.one_pos, by dsimp only; omega, fun s hs => by cases hs⟩
  · exact fun e _ s hs => by cases hs

theorem run_cons (r : SessionRegistry) (op : Op) (ops : List Op) : r.run (op :: ops) = (r.step op).run ops := rfl

theorem run_append (r : SessionRegistry) (ops ops' : List Op) : r.run (ops ++ ops') = (r.run ops).run ops' :=
  foldl_append

/-- The invariant along a run. -/
theorem run_inv : ∀ (ops : List Op) (r : SessionRegistry), Inv (r.creations ops + n) r →
    (∀ before op after, ops = before ++ op :: after → (r.run before).Keeps op) → Inv n (r.run ops)
  | [], r, h, _ => by
    rw [creations, Nat.zero_add] at h
    exact h
  | op :: ops, r, h, hk => by
    rw [creations, Nat.add_assoc] at h
    refine run_inv ops (r.step op) (step_inv h (hk [] op ops rfl)) fun before op' after he => ?_
    exact hk (op :: before) op' after (by rw [he]; rfl)

theorem creations_due (r : SessionRegistry) (now : Time) (ops : List Op) :
    r.creations (.due now :: ops) = (r.due now).1.creations ops :=
  Nat.zero_add _

theorem creations_append : ∀ (ops ops' : List Op) (r : SessionRegistry),
    r.creations (ops ++ ops') = r.creations ops + (r.run ops).creations ops'
  | [], ops', r => by simp [creations, run]
  | op :: ops, ops', r => by
    rw [cons_append, creations, creations, creations_append ops ops' (r.step op), run_cons, Nat.add_assoc]

/-- The invariant gives what is promised of a registry. -/
theorem Inv.oneLivePerAccount (h : Inv n r) : OneLivePerAccount r where
  atMostOne := by
    intro account
    calc r.sessions.countP (fun s => s.account == account && s.state != .ending)
        ≤ r.sessions.countP (fun s => s.account == account) := countP_mono_left fun s _ hs => by
            rw [Bool.and_eq_true] at hs
            exact hs.1
      _ = (r.sessions.map (·.account)).count account := by
          rw [List.count, countP_map]
          rfl
      _ ≤ 1 := nodup_iff_count_le_one.mp h.accounts account
  admitted := by
    intro s hs hlive localSession
    have hfind : r.findAccount s.account = some s := by
      have hsome : (r.findAccount s.account).isSome := by
        rw [findAccount, find?_isSome]
        exact ⟨s, hs, by simp⟩
      obtain ⟨t, ht⟩ := Option.isSome_iff_exists.mp hsome
      have hacc : t.account = s.account := by simpa using find?_some ht
      rw [ht, inj_on_of_nodup_map h.accounts (mem_of_find?_eq_some ht) hs hacc]
    unfold admitAccount
    rw [hfind]
    dsimp only
    rw [if_pos hlive]
  ids := h.ids
  idsNonzero := h.idsNonzero
  since := h.since
  terminates := by
    intro now a ha hkind s hs hid
    obtain ⟨t, ht, hdue, hat⟩ := mem_due ha
    have hst : s = t := inj_on_of_nodup_map h.ids hs ht (hid.trans hat)
    rcases mem_dueSession hdue with ⟨_, hc, _⟩ | ⟨rfl, _⟩
    · rw [hst]
      exact hc
    · cases hkind
  dueOnce := due_nodup h.ids

/-! ### Actions are reported once -/

/-- The action has been reported for this session and is not due again. -/
def Spent (a : Action) (s : Session) : Prop :=
  s.id = a.session → match a.kind with
    | .terminateDisconnected => s.state = .ending
    | .disconnectIdle => s.connection = a.connection → s.idleDisconnectSent = true

/-- All of the id's sessions have it behind them, also those to come. -/
def AllSpent (n : ℕ) (a : Action) (r : SessionRegistry) : Prop :=
  (∀ s ∈ r.sessions, Spent a s) ∧ (n = 0 ∨ a.session < r.nextId) ∧ (a.kind = .disconnectIdle → a.connection ≠ 0)

theorem spent_of_due (h : Inv n r) (ha : a ∈ (r.due now).2) :
    AllSpent n a (r.due now).1 := by
  obtain ⟨t, ht, hdue, hat⟩ := mem_due ha
  refine ⟨fun s hs hid => ?_, ?_, fun hkind => ?_⟩
  · obtain ⟨s0, h0, rfl⟩ := mem_map.mp hs
    rw [(dueSession_minor r.policy now).id] at hid
    have hst : s0 = t := inj_on_of_nodup_map h.ids h0 ht (hid.trans hat)
    subst hst
    rcases mem_dueSession hdue with ⟨rfl, _, _, hend⟩ | ⟨rfl, _, _, hsent⟩
    · exact hend
    · exact fun _ => hsent
  · rcases h.fresh with h0 | ⟨_, _, hlt⟩
    · exact .inl h0
    · rw [hat]
      exact .inr (hlt t ht)
  · rcases mem_dueSession hdue with ⟨rfl, _⟩ | ⟨rfl, hc, _⟩
    · cases hkind
    · exact hc

theorem AllSpent.not_due (h : AllSpent n a r) (now : Time) :
    a ∉ (r.due now).2 := by
  intro ha
  obtain ⟨t, ht, hdue, hat⟩ := mem_due ha
  have hs := h.1 t ht hat.symm
  rcases mem_dueSession hdue with ⟨rfl, _, hrun, _⟩ | ⟨rfl, _, hunsent, _⟩
  · rw [hrun] at hs
    cases hs
  · rw [hunsent] at hs
    exact Bool.false_ne_true (hs rfl)

theorem AllSpent.update (h : AllSpent n a r) (hf : ∀ s, s.id = session → Spent a s → Spent a (f s)) :
    AllSpent n a (r.update session f) := by
  refine ⟨fun s hs => ?_, h.2⟩
  rcases mem_updateFirst hs with hs | ⟨s0, h0, hid, rfl⟩
  · exact h.1 s hs
  · exact hf s0 hid (h.1 s0 h0)

/-- The session is connected anew under the number the action is about. -/
def Renews (a : Action) (op : Op) : Prop :=
  a.kind = .disconnectIdle ∧
    (op = .connect a.session a.connection ∨ op = .adoptConnection a.session a.connection)

theorem step_spent {op : Op} (h : AllSpent (r.creates op + n) a r)
    (hinv : Inv (r.creates op + n) r) (hr : ¬ Renews a op) : AllSpent n a (r.step op) := by
  have hkeep : AllSpent n a r := ⟨h.1, h.2.1.imp (fun h0 => by omega) id, h.2.2⟩
  cases op with
  | arrive account localSession attached now =>
    unfold step
    dsimp only
    by_cases hs : (r.admitAccount account localSession).admission.starts = true
    · rw [if_pos hs]
      rw [creates, hs, Bool.toNat_true] at h hinv
      have hlt : a.session < r.nextId := h.2.1.resolve_left (by omega)
      obtain h0 | ⟨_, hbound, _⟩ := hinv.fresh
      · omega
      refine ⟨fun s hs => ?_, ?_, h.2.2⟩
      · rcases mem_append.mp hs with hs | hs
        · exact h.1 s hs
        · rw [mem_singleton.mp hs]
          exact fun hid => absurd hid hlt.ne'
      · by_cases hn : n = 0
        · exact .inl hn
        · unfold create
          dsimp only
          omega
    · rw [if_neg hs]
      exact hkeep
  | setRunning session =>
    refine hkeep.update fun s _ hs hid => ?_
    by_cases hst : s.state = .starting
    · rw [if_pos hst] at hid ⊢
      have := hs hid
      cases hk : a.kind with
      | terminateDisconnected =>
        rw [hk, hst] at this
        cases this
      | disconnectIdle =>
        rw [hk] at this
        exact this
    · rw [if_neg hst] at hid ⊢
      exact hs hid
  | connect session connection =>
    refine hkeep.update fun s hsid hs hid => ?_
    have hspent := hs hid
    cases hk : a.kind with
    | terminateDisconnected =>
      rw [hk] at hspent
      exact hspent
    | disconnectIdle =>
      intro hc
      dsimp only at hid hc
      exact absurd ⟨hk, .inl (by rw [← hid, ← hsid, hc])⟩ hr
  | disconnected session connection now =>
    refine hkeep.update fun s _ hs hid => ?_
    by_cases hc : s.connection ≠ connection ∨ connection = 0
    · rw [if_pos hc] at hid ⊢
      exact hs hid
    · rw [if_neg hc] at hid ⊢
      have hspent := hs hid
      cases hk : a.kind with
      | terminateDisconnected =>
        rw [hk] at hspent
        exact hspent
      | disconnectIdle => exact fun h0 => absurd h0.symm (h.2.2 hk)
  | adoptConnection session connection =>
    refine hkeep.update fun s hsid hs hid => ?_
    by_cases hc : connection = 0 ∨ s.connection ≠ 0
    · rw [if_pos hc] at hid ⊢
      exact hs hid
    · rw [if_neg hc] at hid ⊢
      have hspent := hs hid
      cases hk : a.kind with
      | terminateDisconnected =>
        rw [hk] at hspent
        exact hspent
      | disconnectIdle =>
        intro hc
        dsimp only at hid hc
        exact absurd ⟨hk, .inr (by rw [← hid, ← hsid, hc])⟩ hr
  | updateIdle session connection idleSeconds =>
    refine hkeep.update fun s _ hs hid => ?_
    by_cases hc : s.connection = connection ∧ connection ≠ 0
    · rw [if_pos hc] at hid ⊢
      exact hs hid
    · rw [if_neg hc] at hid ⊢
      exact hs hid
  | setEnding session =>
    refine hkeep.update fun s _ hs hid => ?_
    have hspent := hs hid
    cases hk : a.kind with
    | terminateDisconnected => rfl
    | disconnectIdle =>
      rw [hk] at hspent
      exact hspent
  | remove session => exact ⟨fun s hs => hkeep.1 s (mem_of_mem_filter hs), hkeep.2⟩
  | due now =>
    refine ⟨fun s hs => ?_, hkeep.2⟩
    obtain ⟨s0, h0, rfl⟩ := mem_map.mp hs
    intro hid
    have hspent := hkeep.1 s0 h0 (by rwa [(dueSession_minor r.policy now).id] at hid)
    unfold dueSession
    dsimp only
    cases hk : a.kind with
    | terminateDisconnected =>
      rw [hk] at hspent
      split_ifs with h1 h2 h3
      · exact hspent
      · rfl
      · exact hspent
      · exact hspent
    | disconnectIdle =>
      rw [hk] at hspent
      split_ifs with h1 h2 h3
      · exact hspent
      · exact hspent
      · exact fun _ => rfl
      · exact hspent

theorem run_spent : ∀ (ops : List Op) (r : SessionRegistry), AllSpent (r.creations ops) a r → Inv (r.creations ops) r →
    (∀ before op after, ops = before ++ op :: after → (r.run before).Keeps op) → (∀ op ∈ ops, ¬ Renews a op) →
    AllSpent 0 a (r.run ops)
  | [], _, h, _, _, _ => h
  | op :: ops, r, h, hinv, hk, hr => by
    rw [creations] at h hinv
    refine run_spent ops (r.step op) (step_spent h hinv (hr op mem_cons_self))
      (step_inv hinv (hk [] op ops rfl)) (fun before op' after he => ?_) fun op' h' =>
        hr op' (mem_cons_of_mem _ h')
    exact hk (op :: before) op' after (by rw [he]; rfl)

/-- A client that idles has a number. -/
theorem due_disconnectIdle (h : a ∈ (r.due now).2) (hk : a.kind = .disconnectIdle) : a.connection ≠ 0 := by
  obtain ⟨s, -, ha⟩ := mem_flatMap.mp h
  unfold dueSession at ha
  dsimp only at ha
  split_ifs at ha with h1 h2 h3
  · cases ha
  · cases mem_singleton.mp ha
    cases hk
  · cases mem_singleton.mp ha
    exact h3.1
  · cases ha

/-! ### Whole runs -/

/-- **The invariants over whole runs.** In every run in which no client
arrives for an account whose session is still ending, connections have
numbers and the session numbers do not run out, every registry reached has
one live session for each account, and an action is reported again only after
its connection came in again. -/
theorem run_oneLivePerAccount (policy : PolicySection) {table : List Restored}
    (haccounts : (table.map (·.account)).Nodup)
    {ops : List Op} (hids : ∀ e ∈ table, e.id + (start policy table).creations ops < 2 ^ 32)
    (hcount : (start policy table).creations ops < 2 ^ 32)
    (hkeeps : ∀ before op after, ops = before ++ op :: after → ((start policy table).run before).Keeps op) :
    (∀ before after, ops = before ++ after → OneLivePerAccount ((start policy table).run before)) ∧
      ∀ before now middle now' after a, ops = before ++ .due now :: (middle ++ .due now' :: after) →
        a ∈ (((start policy table).run before).due now).2 →
        a ∈ (((start policy table).run (before ++ .due now :: middle)).due now').2 → ∃ op ∈ middle, Renews a op := by
  have hstart := start_inv policy haccounts hids hcount
  have hat : ∀ before after, ops = before ++ after →
      Inv (((start policy table).run before).creations after) ((start policy table).run before) := by
    intro before after he
    refine run_inv before _ ?_ fun b op a hb => hkeeps b op (a ++ after) ?_
    · rw [← creations_append, ← he]
      exact hstart
    · rw [he, hb, append_assoc, cons_append]
  refine ⟨fun before after he => (hat before after he).oneLivePerAccount, ?_⟩
  intro before now middle now' after a he ha ha'
  by_contra hno
  push Not at hno
  have hinv := hat before _ he
  have hinv' : Inv ((((start policy table).run before).due now).1.creations middle)
      (((start policy table).run before).due now).1 := by
    refine (due_inv hinv now).mono ?_
    rw [creations_due, creations_append]
    exact Nat.le_add_right _ _
  have hspent : AllSpent ((((start policy table).run before).due now).1.creations middle) a
      (((start policy table).run before).due now).1 := by
    obtain ⟨h1, h2, h3⟩ := spent_of_due hinv ha
    refine ⟨h1, h2.imp (fun h0 => ?_) id, h3⟩
    rw [creations_due, creations_append] at h0
    exact (Nat.add_eq_zero_iff.mp h0).1
  refine (run_spent middle _ hspent hinv' (fun b op c hb => ?_) hno).not_due now' ?_
  · have := hkeeps (before ++ .due now :: b) op (c ++ .due now' :: after) (by
      rw [he, hb, append_assoc, append_assoc, cons_append, cons_append])
    rwa [run_append, run_cons] at this
  · rwa [run_append, run_cons] at ha'

/-- A client, its session's end and the next client's session. -/
theorem run_oneLivePerAccount_reconnect :
    OneLivePerAccount ((start {} [⟨7, [97], false, 0⟩]).run
      [.arrive [98] false false 1, .connect 8 1, .setEnding 8, .remove 8, .arrive [98] false false 2]) := by
  refine (run_oneLivePerAccount {} (by decide) (by decide) (by decide) ?_).1 _ [] (append_nil _).symm
  intro before op after he
  match before, he with
  | [], he => cases he; decide
  | [_], he => cases he; decide
  | [_, _], he => cases he; exact trivial
  | [_, _, _], he => cases he; exact trivial
  | [_, _, _, _], he => cases he; decide
  | _ :: _ :: _ :: _ :: _ :: before, he => cases before <;> cases he

/-- **Two live sessions of one account**: the third client is admitted by the
session that is ending. -/
theorem twoLive_after_ending : ¬ ∀ (policy : PolicySection) (table : List Restored) (ops : List Op),
    (table.map (·.account)).Nodup → OneLivePerAccount ((start policy table).run ops) := by
  intro h
  have hone := (h {} [] [.arrive [97] false false 0, .setEnding 1, .arrive [97] false false 1,
    .arrive [97] false false 2] nodup_nil).atMostOne [97]
  revert hone
  decide

end SessionRegistry
end Daemon
end Farland
