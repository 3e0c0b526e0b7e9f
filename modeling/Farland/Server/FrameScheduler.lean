/-
# When to send the next frame

The frame scheduler of the graphics path (`server/frame_scheduler.cpp`): a
frame is due when the screen changed, the interval of the frame-rate cap has
passed since the last frame, and fewer than `maxFramesInFlight` frames await
their acknowledgement. A frame whose acknowledgement is overdue no longer
counts; how long that takes follows the measured round trip. `due` and `wait`
both forget the overdue frames before they answer, each by its own formula.

The scheduler keeps no clock, so a `Caller` does: its calls come at times that
never go back, and it sends a frame only where `due` has just said so. Times
and durations are whole numbers of nanoseconds.

The answers depend on the overdue frames only through `expire`, and forgetting
early never changes what is forgotten later (`expire_expire`), so a query may
be repeated or left out.

Key theorem: `run_paces`.
-/
import Mathlib.Tactic

namespace Farland
namespace Server

open List Option

/-- `FrameScheduler::Config`. -/
structure SchedulerConfig where
  maxFps : ℕ := 30
  maxFramesInFlight : ℕ := 2
  ackTimeout : ℤ := 1000000000
  ackTimeoutRttFactor : ℕ := 4
  maxAckTimeout : ℤ := 10000000000
  acknowledgements : Bool := true
  deriving DecidableEq

/-- A frame that awaits its acknowledgement. -/
structure InFlight where
  frameId : ℕ
  sent : ℤ
  deriving DecidableEq

structure FrameScheduler where
  config : SchedulerConfig
  interval : ℤ
  pending : Bool := false
  suspended : Bool := false
  lastSent : Option ℤ := none
  inFlight : List InFlight := []
  roundTrip : Option ℤ := none
  deriving DecidableEq

namespace FrameScheduler

/-- A whole number of microseconds, in nanoseconds. -/
def frameInterval (fps : ℕ) : ℤ := (1000000 / max fps 1 : ℕ) * 1000

def create (config : SchedulerConfig) : FrameScheduler where
  config := { config with maxFramesInFlight := max config.maxFramesInFlight 1 }
  interval := frameInterval config.maxFps

variable (s : FrameScheduler)

def damage : FrameScheduler := { s with pending := true }

def setMaxFps (fps : ℕ) : FrameScheduler :=
  { s with config := { s.config with maxFps := fps }, interval := frameInterval fps }

def gatedByAcks : Bool := s.config.acknowledgements && !s.suspended

def frameSent (frameId : ℕ) (now : ℤ) : FrameScheduler :=
  { s with
    pending := false
    lastSent := some now
    inFlight := if s.gatedByAcks then s.inFlight ++ [⟨frameId, now⟩] else s.inFlight }

/-- The frames before the acknowledged one were lost or skipped. -/
def frameAcknowledged (frameId : ℕ) (now : ℤ) : FrameScheduler :=
  match s.inFlight.dropWhile (·.frameId != frameId) with
  | [] => s
  | found :: rest =>
    let sample := now - found.sent
    { s with
      roundTrip := some (match s.roundTrip with
        | some old => (old * 7 + sample).tdiv 8
        | none => sample)
      inFlight := rest }

def setAcknowledgementsSuspended (suspended : Bool) : FrameScheduler :=
  { s with suspended := suspended, inFlight := if suspended then [] else s.inFlight }

def ackTimeout (s : FrameScheduler) : ℤ :=
  match s.roundTrip with
  | none => s.config.ackTimeout
  | some roundTrip =>
    let scaled := roundTrip * s.config.ackTimeoutRttFactor
    let floor := min s.config.ackTimeout s.config.maxAckTimeout
    min (max scaled floor) s.config.maxAckTimeout

/-- Forgets the frames whose acknowledgement is overdue, oldest first. -/
def expire (now : ℤ) : FrameScheduler :=
  { s with inFlight := s.inFlight.dropWhile fun frame => s.ackTimeout ≤ now - frame.sent }

/-- The window admits no further frame. -/
def full : Bool := s.gatedByAcks && s.config.maxFramesInFlight ≤ s.inFlight.length

def due (now : ℤ) : FrameScheduler × Bool :=
  if s.pending then
    let s := s.expire now
    if s.full then (s, false)
    else
      (s, match s.lastSent with
        | none => true
        | some last => s.interval ≤ now - last)
  else (s, false)

def wait (s : FrameScheduler) (now : ℤ) : FrameScheduler × Option ℤ :=
  if s.pending then
    let s := s.expire now
    let wait := match s.lastSent with
      | none => 0
      | some last => max 0 (last + s.interval - now)
    let wait := match s.full, s.inFlight with
      | true, front :: _ => max wait (front.sent + s.ackTimeout - now)
      | _, _ => wait
    (s, some wait)
  else (s, none)

/-! ### Overdue frames -/

variable (s : FrameScheduler)

@[simp] theorem expire_pending (now : ℤ) : (s.expire now).pending = s.pending := rfl

@[simp] theorem expire_config (now : ℤ) : (s.expire now).config = s.config := rfl

@[simp] theorem expire_lastSent (now : ℤ) : (s.expire now).lastSent = s.lastSent := rfl

@[simp] theorem expire_interval (now : ℤ) : (s.expire now).interval = s.interval := rfl

@[simp] theorem expire_ackTimeout (now : ℤ) : (s.expire now).ackTimeout = s.ackTimeout := rfl

theorem expire_sublist (now : ℤ) : (s.expire now).inFlight.Sublist s.inFlight := dropWhile_sublist _

/-- What is dropped first is dropped by a weaker condition too. -/
theorem dropWhile_dropWhile {p q : InFlight → Bool} (hpq : ∀ frame, p frame → q frame) :
    ∀ frames : List InFlight, (frames.dropWhile p).dropWhile q = frames.dropWhile q
  | [] => rfl
  | frame :: frames => by
    by_cases hp : p frame
    · have hq : q frame := hpq frame hp
      rw [dropWhile_cons_of_pos hp, dropWhile_cons_of_pos hq]
      exact dropWhile_dropWhile hpq frames
    · rw [dropWhile_cons_of_neg hp]

variable {now : ℤ} {t : ℤ}

/-- Forgetting early does not change what is forgotten later. -/
theorem expire_expire (h : now ≤ t) : (s.expire now).expire t = s.expire t := by
  have hdrop := dropWhile_dropWhile (p := fun frame => decide (s.ackTimeout ≤ now - frame.sent))
    (q := fun frame => decide (s.ackTimeout ≤ t - frame.sent))
    (by
      intro frame hframe
      simp only [decide_eq_true_eq] at hframe ⊢
      omega)
    s.inFlight
  unfold expire
  congr 1

variable {rest : List InFlight} {front : InFlight}

/-- The oldest frame still counted is not overdue. -/
theorem expire_front {s : FrameScheduler} (h : (s.expire now).inFlight = front :: rest) :
    now < front.sent + s.ackTimeout := by
  have hhead : ¬ s.ackTimeout ≤ now - front.sent := by
    have hne : s.inFlight.dropWhile (fun frame => decide (s.ackTimeout ≤ now - frame.sent)) ≠ [] := by
      show (s.expire now).inFlight ≠ []
      rw [h]
      exact cons_ne_nil _ _
    have hnot := head_dropWhile_not (fun frame : InFlight => decide (s.ackTimeout ≤ now - frame.sent)) hne
    have heq : (s.inFlight.dropWhile fun frame => decide (s.ackTimeout ≤ now - frame.sent)) = front :: rest := h
    simpa [heq] using hnot
  omega

/-- Nothing is forgotten while the oldest frame is not overdue. -/
theorem expire_early {s : FrameScheduler} (h : s.inFlight = front :: rest) (ht : t < front.sent + s.ackTimeout) :
    s.expire t = s := by
  have hkeep : ¬ s.ackTimeout ≤ t - front.sent := by omega
  unfold expire
  rw [h, dropWhile_cons_of_neg (by simpa using hkeep), ← h]

/-- The oldest frame is forgotten once it is overdue. -/
theorem expire_late {s : FrameScheduler} (h : s.inFlight = front :: rest) (ht : front.sent + s.ackTimeout ≤ t) :
    (s.expire t).inFlight.length ≤ rest.length := by
  have hdrop : s.ackTimeout ≤ t - front.sent := by omega
  have heq : (s.expire t).inFlight = rest.dropWhile fun frame => decide (s.ackTimeout ≤ t - frame.sent) := by
    show s.inFlight.dropWhile _ = _
    rw [h, dropWhile_cons_of_pos (by simpa using hdrop)]
  rw [heq]
  exact (dropWhile_sublist _).length_le

theorem expire_full {s : FrameScheduler} (h : (s.expire t).full = true) : s.full = true := by
  unfold full at h ⊢
  rw [Bool.and_eq_true, decide_eq_true_eq] at h ⊢
  exact ⟨h.1, h.2.trans (expire_sublist s t).length_le⟩

/-! ### The two answers -/

/-- How long the frame-rate cap still holds a frame back, from now on. -/
def capLeft (s : FrameScheduler) (now : ℤ) : ℤ := s.lastSent.elim 0 fun last => last + s.interval - now

/-- How long a full window holds a frame back, from now on. -/
def windowLeft (s : FrameScheduler) (now : ℤ) : ℤ :=
  if s.full then s.inFlight.head?.elim 0 fun front => front.sent + s.ackTimeout - now else 0

theorem due_state (now : ℤ) : (s.due now).1 = if s.pending then s.expire now else s := by
  unfold due
  by_cases hp : s.pending
  · simp only [hp, if_true]
    split <;> rfl
  · simp [hp]

theorem wait_state (now : ℤ) : (s.wait now).1 = if s.pending then s.expire now else s := by
  unfold wait
  by_cases hp : s.pending <;> simp [hp]

/-- A frame is due when neither the cap nor the window holds it back. -/
theorem due_iff {s : FrameScheduler} :
    (s.due now).2 = true ↔ s.pending = true ∧ (s.expire now).full = false ∧ s.capLeft now ≤ 0 := by
  unfold due capLeft
  by_cases hp : s.pending
  · by_cases hf : (s.expire now).full
    · simp [hp, hf]
    · cases hlast : s.lastSent with
      | none => simp [hp, hf, hlast]
      | some last =>
        have hle : s.interval ≤ now - last ↔ last + s.interval - now ≤ 0 := by omega
        simp [hp, hf, hlast, hle]
  · simp [hp]

theorem wait_eq (now : ℤ) :
    (s.wait now).2 = if s.pending then some (max (max 0 (s.capLeft now)) ((s.expire now).windowLeft now))
      else none := by
  unfold wait
  by_cases hp : s.pending
  · simp only [hp]
    have hcap : (match (s.expire now).lastSent with
        | none => (0 : ℤ)
        | some last => max 0 (last + (s.expire now).interval - now)) = max 0 (s.capLeft now) := by
      unfold capLeft
      rw [expire_lastSent]
      cases s.lastSent <;> simp
    rw [hcap]
    unfold windowLeft
    by_cases hf : (s.expire now).full
    · cases hin : (s.expire now).inFlight <;> simp [hf]
    · simp [hf]
  · simp [hp]

/-- A full window is not empty, and its oldest frame is not overdue. -/
theorem windowLeft_pos {s : FrameScheduler} (hmax : 1 ≤ s.config.maxFramesInFlight) (hfull : (s.expire now).full = true) :
    0 < (s.expire now).windowLeft now := by
  have hlen : s.config.maxFramesInFlight ≤ (s.expire now).inFlight.length := by
    have hboth := hfull
    unfold full at hboth
    rw [Bool.and_eq_true, decide_eq_true_eq] at hboth
    exact hboth.2
  match hin : (s.expire now).inFlight with
  | [] =>
    rw [hin, length_nil] at hlen
    omega
  | front :: rest =>
    have hopen := expire_front hin
    simp only [windowLeft, hfull, if_true, hin, head?_cons, elim_some, expire_ackTimeout]
    omega

theorem windowLeft_of_not_full {s : FrameScheduler} (h : s.full = false) : s.windowLeft now = 0 := by
  simp [windowLeft, h]

/-- The two formulas agree: a frame is due exactly when there is nothing to wait for. -/
theorem due_iff_wait {s : FrameScheduler} (hmax : 1 ≤ s.config.maxFramesInFlight) (now : ℤ) :
    (s.due now).2 = true ↔ (s.wait now).2 = some 0 := by
  rw [due_iff, wait_eq]
  by_cases hp : s.pending
  · simp only [hp, if_true, true_and, Option.some.injEq]
    by_cases hfull : (s.expire now).full
    · have hpos := windowLeft_pos hmax hfull
      simp only [hfull, Bool.true_eq_false, false_and, false_iff]
      omega
    · have hfree : (s.expire now).full = false := by simpa using hfull
      rw [windowLeft_of_not_full hfree]
      simp only [hfree, true_and]
      omega
  · simp [hp]

/-- What `due` answers does not depend on a query made before. -/
theorem due_expire {s : FrameScheduler} (hp : s.pending = true) (h : now ≤ t) : (s.expire now).due t = s.due t := by
  have hcap : (s.expire now).capLeft t = s.capLeft t := rfl
  refine Prod.ext ?_ ?_
  · rw [due_state, due_state, expire_expire s h]
    simp [hp]
  · apply Bool.eq_iff_iff.mpr
    rw [due_iff, due_iff, expire_pending, expire_expire s h, hcap]

/-- No frame is due before the wait is over. -/
theorem due_early {s : FrameScheduler} {w : ℤ} (hw : (s.wait now).2 = some w) (ht : now ≤ t) (hlt : t < now + w) :
    (s.due t).2 = false := by
  rw [wait_eq] at hw
  by_cases hp : s.pending
  · simp only [hp, if_true, Option.some.injEq] at hw
    apply Bool.eq_false_iff.mpr
    intro hdue
    obtain ⟨-, hfree, hcap⟩ := due_iff.mp hdue
    have hshift : s.capLeft now = s.capLeft t + (t - now) ∨ s.capLeft now = 0 := by
      unfold capLeft
      cases s.lastSent with
      | none => exact .inr rfl
      | some last =>
        simp only [elim_some]
        omega
    -- The cap lets the frame through at `t`, so it is the window that holds it back until then.
    by_cases hfull : (s.expire now).full
    · match hin : (s.expire now).inFlight with
      | [] =>
        simp only [windowLeft, hin, head?_nil, elim_none] at hw
        omega
      | front :: rest =>
        simp only [windowLeft, hin, head?_cons, elim_some,
          expire_ackTimeout] at hw
        have hkeep : (s.expire now).expire t = s.expire now := by
          apply expire_early hin
          rw [expire_ackTimeout]
          omega
        rw [expire_expire s ht] at hkeep
        rw [hkeep, hfull] at hfree
        exact absurd hfree (by simp)
    · rw [windowLeft_of_not_full (by simpa using hfull)] at hw
      omega
  · simp [hp] at hw

/-- A frame is due as soon as the wait is over. -/
theorem due_on_time {s : FrameScheduler} (hlen : s.inFlight.length ≤ s.config.maxFramesInFlight) {w : ℤ}
    (hmax : 1 ≤ s.config.maxFramesInFlight) (hw : (s.wait now).2 = some w) : (s.due (now + w)).2 = true := by
  rw [wait_eq] at hw
  by_cases hp : s.pending
  · simp only [hp, if_true, Option.some.injEq] at hw
    have hge : now ≤ now + w := by omega
    have hcap : s.capLeft (now + w) ≤ 0 := by
      have hle : s.capLeft now ≤ w := by omega
      unfold capLeft at hle ⊢
      cases hlast : s.lastSent with
      | none => simp
      | some last =>
        simp only [hlast, elim_some] at hle ⊢
        omega
    refine due_iff.mpr ⟨hp, ?_, hcap⟩
    apply Bool.eq_false_iff.mpr
    intro hfull
    have hbefore : (s.expire now).full = true := by
      rw [← expire_expire s hge] at hfull
      exact expire_full hfull
    match hin : (s.expire now).inFlight with
    | [] =>
      have hpos := windowLeft_pos hmax hbefore
      simp only [windowLeft, hin, head?_nil, elim_none] at hpos
      omega
    | front :: rest =>
      simp only [windowLeft, hbefore, if_true, hin, head?_cons, elim_some, expire_ackTimeout] at hw
      -- The oldest frame is overdue by then, so at least one place is free.
      have hdrop : ((s.expire now).expire (now + w)).inFlight.length ≤ rest.length := by
        apply expire_late hin
        rw [expire_ackTimeout]
        omega
      rw [expire_expire s hge] at hdrop
      have hshorter : rest.length + 1 ≤ s.inFlight.length := by
        have hsub := (expire_sublist s now).length_le
        rwa [hin] at hsub
      unfold full at hfull
      rw [Bool.and_eq_true, decide_eq_true_eq, expire_config] at hfull
      omega
  · simp [hp] at hw

/-! ### The caller -/

/-- A call of the frame scheduler. -/
inductive Call where
  | damage
  | due (now : ℤ)
  | wait (now : ℤ)
  | frameSent (frameId : ℕ) (now : ℤ)
  | frameAcknowledged (frameId : ℕ) (now : ℤ)
  | setAcknowledgementsSuspended (suspended : Bool)
  | setMaxFps (fps : ℕ)
  deriving DecidableEq

namespace Call

def isQuery : Call → Bool
  | due _ | wait _ => true
  | _ => false

def isFrameSent : Call → Bool
  | frameSent _ _ => true
  | _ => false

end Call

/-- A scheduler, the time of the last timed call, and the time at which `due`
was just true, if the last call was `due`. -/
structure Caller where
  scheduler : FrameScheduler
  clock : Option ℤ := none
  dueAt : Option ℤ := none
  deriving DecidableEq

namespace Caller

def start (config : SchedulerConfig) : Caller where
  scheduler := create config

/-- Time does not go back. -/
def mayCall (c : Caller) (now : ℤ) : Bool := c.clock.elim true (· ≤ now)

/-- A frame is sent only right after `due` was true at the same time. -/
def allows (c : Caller) : Call → Bool
  | .due now | .wait now | .frameAcknowledged _ now => c.mayCall now
  | .frameSent _ now => c.dueAt = some now
  | .damage | .setAcknowledgementsSuspended _ | .setMaxFps _ => true

def perform (c : Caller) : Call → Caller
  | .damage => { c with scheduler := c.scheduler.damage, dueAt := none }
  | .due now => ⟨(c.scheduler.due now).1, some now, if (c.scheduler.due now).2 then some now else none⟩
  | .wait now => ⟨(c.scheduler.wait now).1, some now, none⟩
  | .frameSent frameId now => ⟨c.scheduler.frameSent frameId now, some now, none⟩
  | .frameAcknowledged frameId now => ⟨c.scheduler.frameAcknowledged frameId now, some now, none⟩
  | .setAcknowledgementsSuspended suspended =>
    { c with scheduler := c.scheduler.setAcknowledgementsSuspended suspended, dueAt := none }
  | .setMaxFps fps => { c with scheduler := c.scheduler.setMaxFps fps, dueAt := none }

/-- The calls one after the other; none if one of them is not allowed. -/
def run (c : Caller) : List Call → Option Caller
  | [] => some c
  | call :: calls => if c.allows call then (c.perform call).run calls else none

theorem run_induct {P : Caller → Prop} (hstep : ∀ c call, P c → c.allows call = true → P (c.perform call)) :
    ∀ {calls : List Call} {c c' : Caller}, P c → c.run calls = some c' → P c'
  | [], _, _, hc, h => Option.some.inj h ▸ hc
  | call :: calls, c, c', hc, h => by
    by_cases hallow : c.allows call
    · rw [run, if_pos hallow] at h
      exact run_induct hstep (hstep c call hc hallow) h
    · rw [run, if_neg hallow] at h
      exact absurd h (by simp)

/-- What holds between the calls. -/
structure Steady (config : SchedulerConfig) (c : Caller) : Prop where
  window : c.scheduler.config.maxFramesInFlight = max config.maxFramesInFlight 1
  inFlight_le : c.scheduler.inFlight.length ≤ c.scheduler.config.maxFramesInFlight
  sorted : c.scheduler.inFlight.Pairwise fun a b => a.sent ≤ b.sent
  past : ∀ frame ∈ c.scheduler.inFlight, ∃ time, c.clock = some time ∧ frame.sent ≤ time
  /-- Where a frame may be sent, the window has a place for it. -/
  room : ∀ now, c.dueAt = some now → c.clock = some now ∧ c.scheduler.full = false

theorem start_steady (config : SchedulerConfig) : (start config).Steady config where
  window := rfl
  inFlight_le := Nat.zero_le _
  sorted := List.Pairwise.nil
  past := by
    intro frame hframe
    exact absurd hframe (by simp [start, create])
  room := by
    intro now hnow
    exact absurd hnow (by simp [start])

variable {config : SchedulerConfig}

/-- Fewer frames in flight, at a later time, are steady as well. -/
theorem Steady.fewer {c c' : Caller} (h : c.Steady config)
    (hwindow : c'.scheduler.config.maxFramesInFlight = c.scheduler.config.maxFramesInFlight)
    (hsub : c'.scheduler.inFlight.Sublist c.scheduler.inFlight)
    (hclock : ∀ time, c.clock = some time → ∃ time', c'.clock = some time' ∧ time ≤ time')
    (hroom : ∀ now, c'.dueAt = some now → c'.clock = some now ∧ c'.scheduler.full = false) : c'.Steady config where
  window := hwindow.trans h.window
  inFlight_le := by
    rw [hwindow]
    exact hsub.length_le.trans h.inFlight_le
  sorted := h.sorted.sublist hsub
  past := by
    intro frame hframe
    obtain ⟨time, htime, hle⟩ := h.past frame (hsub.subset hframe)
    obtain ⟨time', htime', hlater⟩ := hclock time htime
    exact ⟨time', htime', hle.trans hlater⟩
  room := hroom

/-- A call at an allowed time moves the clock on. -/
theorem clock_moves {c : Caller} {now : ℤ} (h : c.mayCall now = true) (time : ℤ) (htime : c.clock = some time) :
    ∃ time', some now = some time' ∧ time ≤ time' := by
  refine ⟨now, rfl, ?_⟩
  simpa [mayCall, htime] using h

variable (s : FrameScheduler)

theorem frameAcknowledged_sublist (frameId : ℕ) (now : ℤ) :
    (s.frameAcknowledged frameId now).inFlight.Sublist s.inFlight := by
  unfold frameAcknowledged
  split
  · exact List.Sublist.refl _
  · next found rest hdrop =>
    have hsub : (found :: rest).Sublist s.inFlight := hdrop ▸ dropWhile_sublist _
    exact (sublist_cons_self found rest).trans hsub

theorem frameAcknowledged_config (frameId : ℕ) (now : ℤ) : (s.frameAcknowledged frameId now).config = s.config := by
  unfold frameAcknowledged
  split <;> rfl

theorem query_sublist (now : ℤ) : (if s.pending then s.expire now else s).inFlight.Sublist s.inFlight := by
  split
  · exact expire_sublist s now
  · exact List.Sublist.refl _

theorem query_config (now : ℤ) : (if s.pending then s.expire now else s).config = s.config := by
  split <;> rfl

/-- A frame joins the window at the time of the `due` before it. -/
theorem frameSent_steady {c : Caller} (h : c.Steady config) {frameId : ℕ} {now : ℤ} (hdue : c.dueAt = some now) :
    (c.perform (.frameSent frameId now)).Steady config := by
  obtain ⟨hclock, hfull⟩ := h.room now hdue
  have hpast : ∀ frame ∈ c.scheduler.inFlight, frame.sent ≤ now := by
    intro frame hframe
    obtain ⟨time, htime, hle⟩ := h.past frame hframe
    rw [hclock] at htime
    rwa [Option.some.inj htime]
  have hroom : ∀ now', (c.perform (.frameSent frameId now)).dueAt = some now' →
      (c.perform (.frameSent frameId now)).clock = some now' ∧
        (c.perform (.frameSent frameId now)).scheduler.full = false := by
    intro now' hnow'
    exact absurd hnow' (by simp [perform])
  by_cases hgated : c.scheduler.gatedByAcks
  · have hin : (c.perform (.frameSent frameId now)).scheduler.inFlight = c.scheduler.inFlight ++ [⟨frameId, now⟩] := by
      simp [perform, frameSent, hgated]
    refine ⟨h.window, ?_, ?_, ?_, hroom⟩
    · have hlt : c.scheduler.inFlight.length < c.scheduler.config.maxFramesInFlight := by
        simpa [full, hgated] using hfull
      rw [hin, length_append]
      exact hlt
    · rw [hin, pairwise_append]
      refine ⟨h.sorted, pairwise_singleton _ _, ?_⟩
      intro a ha b hb
      rw [mem_singleton.mp hb]
      exact hpast a ha
    · intro frame hframe
      rw [hin, mem_append, mem_singleton] at hframe
      refine ⟨now, rfl, ?_⟩
      rcases hframe with hframe | rfl
      · exact hpast frame hframe
      · exact le_rfl
  · have hin : (c.perform (.frameSent frameId now)).scheduler.inFlight = c.scheduler.inFlight := by
      simp [perform, frameSent, hgated]
    refine @Steady.fewer config c (c.perform (.frameSent frameId now)) h rfl (hin ▸ List.Sublist.refl _) ?_ hroom
    intro time htime
    rw [hclock] at htime
    exact ⟨now, rfl, (Option.some.inj htime).ge⟩

theorem perform_steady (c : Caller) (call : Call) (h : c.Steady config) (hallow : c.allows call = true) :
    (c.perform call).Steady config := by
  have hsame : ∀ time, c.clock = some time → ∃ time', c.clock = some time' ∧ time ≤ time' :=
    fun time htime => ⟨time, htime, le_rfl⟩
  have hnone : ∀ {p : Prop} {now : ℤ}, (none : Option ℤ) = some now → p := fun h => absurd h (by simp)
  match call with
  | .damage => exact h.fewer rfl (List.Sublist.refl _) hsame fun _ => hnone
  | .setMaxFps _ => exact h.fewer rfl (List.Sublist.refl _) hsame fun _ => hnone
  | .setAcknowledgementsSuspended suspended =>
    have hsub : (c.scheduler.setAcknowledgementsSuspended suspended).inFlight.Sublist c.scheduler.inFlight := by
      unfold setAcknowledgementsSuspended
      by_cases hs : suspended <;> simp [hs]
    exact h.fewer rfl hsub hsame fun _ => hnone
  | .frameAcknowledged frameId now =>
    have hconfig := frameAcknowledged_config c.scheduler frameId now
    exact h.fewer (congrArg SchedulerConfig.maxFramesInFlight hconfig)
      (frameAcknowledged_sublist c.scheduler frameId now) (clock_moves hallow) fun _ => hnone
  | .wait now =>
    have hstate := wait_state c.scheduler now
    apply h.fewer _ _ (clock_moves hallow) fun _ => hnone
    · show (c.scheduler.wait now).1.config.maxFramesInFlight = _
      rw [hstate, query_config]
    · show (c.scheduler.wait now).1.inFlight.Sublist _
      rw [hstate]
      exact query_sublist c.scheduler now
  | .due now =>
    have hstate := due_state c.scheduler now
    apply h.fewer _ _ (clock_moves hallow)
    · intro now' hnow'
      have hdue : (c.scheduler.due now).2 = true ∧ now = now' := by
        simpa [perform] using hnow'
      obtain ⟨hpending, hfull, -⟩ := due_iff.mp hdue.1
      refine ⟨congrArg some hdue.2, ?_⟩
      show (c.scheduler.due now).1.full = false
      rw [hstate, if_pos hpending]
      exact hfull
    · show (c.scheduler.due now).1.config.maxFramesInFlight = _
      rw [hstate, query_config]
    · show (c.scheduler.due now).1.inFlight.Sublist _
      rw [hstate]
      exact query_sublist c.scheduler now
  | .frameSent frameId now => exact frameSent_steady h (by simpa [allows] using hallow)

theorem run_steady {calls : List Call} {c : Caller} (h : (start config).run calls = some c) : c.Steady config :=
  run_induct perform_steady (start_steady config) h

/-! ### What the calls say -/

/-- Damage was reported since the last frame. -/
def DamagedSince (calls : List Call) : Prop :=
  ∃ before after, calls = before ++ .damage :: after ∧ ∀ call ∈ after, call.isFrameSent = false

theorem damagedSince_cons {call : Call} {calls : List Call} :
    DamagedSince (call :: calls) ↔
      DamagedSince calls ∨ call = .damage ∧ ∀ later ∈ calls, later.isFrameSent = false := by
  constructor
  · rintro ⟨before, after, heq, hafter⟩
    cases before with
    | nil =>
      obtain ⟨rfl, rfl⟩ := List.cons.inj heq
      exact .inr ⟨rfl, hafter⟩
    | cons first before =>
      obtain ⟨rfl, rfl⟩ := List.cons.inj heq
      exact .inl ⟨before, after, rfl, hafter⟩
  · rintro (⟨before, after, rfl, hafter⟩ | ⟨rfl, hafter⟩)
    · exact ⟨call :: before, after, rfl, hafter⟩
    · exact ⟨[], calls, rfl, hafter⟩

theorem query_pending (now : ℤ) : (if s.pending then s.expire now else s).pending = s.pending := by
  split <;> rfl

theorem perform_pending (c : Caller) (call : Call) :
    (c.perform call).scheduler.pending = true ↔
      call = .damage ∨ c.scheduler.pending = true ∧ call.isFrameSent = false := by
  match call with
  | .damage => simp [perform, damage]
  | .due now =>
    show (c.scheduler.due now).1.pending = true ↔ _
    rw [due_state, query_pending]
    simp [Call.isFrameSent]
  | .wait now =>
    show (c.scheduler.wait now).1.pending = true ↔ _
    rw [wait_state, query_pending]
    simp [Call.isFrameSent]
  | .frameSent frameId now => simp [perform, frameSent, Call.isFrameSent]
  | .frameAcknowledged frameId now =>
    have hpending : (c.scheduler.frameAcknowledged frameId now).pending = c.scheduler.pending := by
      unfold frameAcknowledged
      split <;> rfl
    show (c.scheduler.frameAcknowledged frameId now).pending = true ↔ _
    rw [hpending]
    simp [Call.isFrameSent]
  | .setAcknowledgementsSuspended _ => simp [perform, setAcknowledgementsSuspended, Call.isFrameSent]
  | .setMaxFps _ => simp [perform, setMaxFps, Call.isFrameSent]

/-- The screen is to be sent when it changed during the run, or before it, and no frame took the change. -/
theorem run_pending : ∀ {calls : List Call} {c c' : Caller}, c.run calls = some c' → (c'.scheduler.pending = true ↔
      DamagedSince calls ∨ c.scheduler.pending = true ∧ ∀ call ∈ calls, call.isFrameSent = false)
  | [], c, c', h => by
    obtain rfl : c = c' := Option.some.inj h
    simp [DamagedSince]
  | call :: calls, c, c', h => by
    by_cases hallow : c.allows call
    · rw [run, if_pos hallow] at h
      rw [run_pending h, perform_pending, damagedSince_cons, forall_mem_cons]
      tauto
    · rw [run, if_neg hallow] at h
      exact absurd h (by simp)

/-- Queries at later and later times forget what the last of them forgets. -/
theorem run_queries {s : FrameScheduler} (hp : s.pending = true) :
    ∀ {calls : List Call} {c c' : Caller} {now : ℤ}, (∀ call ∈ calls, call.isQuery = true) →
      c.clock = some now → c.scheduler = s.expire now → c.run calls = some c' →
      ∃ later, now ≤ later ∧ c'.clock = some later ∧ c'.scheduler = s.expire later
  | [], c, c', now, _, hclock, hs, h => by
    obtain rfl : c = c' := Option.some.inj h
    exact ⟨now, le_rfl, hclock, hs⟩
  | call :: calls, c, c', now, hqueries, hclock, hs, h => by
    by_cases hallow : c.allows call
    · rw [run, if_pos hallow] at h
      have hquery := hqueries call (mem_cons_self ..)
      have hstep : ∃ t, now ≤ t ∧ (c.perform call).clock = some t ∧ (c.perform call).scheduler = s.expire t := by
        match call with
        | .due t | .wait t =>
          have ht : now ≤ t := by simpa [allows, mayCall, hclock] using hallow
          refine ⟨t, ht, rfl, ?_⟩
          simp only [perform, due_state, wait_state, hs, expire_pending, hp, if_true, expire_expire s ht]
      obtain ⟨t, ht, hclock', hs'⟩ := hstep
      obtain ⟨later, hlater, hend⟩ :=
        run_queries hp (fun call' hcall' => hqueries call' (mem_cons_of_mem _ hcall')) hclock' hs' h
      exact ⟨later, ht.trans hlater, hend⟩
    · rw [run, if_neg hallow] at h
      exact absurd h (by simp)

/-- **Frame pacing over a whole run.** The window holds and its send times are
in order; a frame is pending exactly while damage is not yet sent; `due` and
`wait` agree; and after `wait` said `w`, whatever else is asked in between, no
frame is due before `w` has passed, and one is due then. -/
theorem run_paces {config : SchedulerConfig} {calls : List Call} {c : Caller} (h : (start config).run calls = some c) :
    c.scheduler.inFlight.length ≤ max config.maxFramesInFlight 1 ∧
    c.scheduler.inFlight.Pairwise (fun a b => a.sent ≤ b.sent) ∧
    (c.scheduler.pending = true ↔ DamagedSince calls) ∧
    (∀ now, c.mayCall now = true → ((c.scheduler.due now).2 = true ↔ (c.scheduler.wait now).2 = some 0)) ∧
    ∀ now w, c.mayCall now = true → (c.scheduler.wait now).2 = some w → 0 < w →
      ∀ queries c', (∀ query ∈ queries, query.isQuery = true) → c.run (.wait now :: queries) = some c' →
        ∀ t, c'.mayCall t = true →
          (t < now + w → (c'.scheduler.due t).2 = false) ∧ (t = now + w → (c'.scheduler.due t).2 = true) := by
  have hsteady := run_steady h
  have hmax : 1 ≤ c.scheduler.config.maxFramesInFlight := by
    rw [hsteady.window]
    exact le_max_right _ _
  refine ⟨hsteady.window ▸ hsteady.inFlight_le, hsteady.sorted, ?_, fun now _ => due_iff_wait hmax now, ?_⟩
  · rw [run_pending h]
    simp [start, create]
  · intro now w hnow hw hpos queries c' hqueries hrun t ht
    have hp : c.scheduler.pending = true := by
      by_contra hnot
      simp [wait_eq, hnot] at hw
    rw [run, if_pos (show c.allows (.wait now) = true from hnow)] at hrun
    obtain ⟨later, hlater, hclock, hs⟩ := run_queries hp hqueries rfl (by
      show (c.scheduler.wait now).1 = _
      rw [wait_state, if_pos hp]) hrun
    have hle : later ≤ t := by simpa [mayCall, hclock] using ht
    have hdue : c'.scheduler.due t = c.scheduler.due t := by rw [hs, due_expire hp hle]
    rw [hdue]
    refine ⟨due_early hw (hlater.trans hle), ?_⟩
    rintro rfl
    exact due_on_time hsteady.inFlight_le hmax hw

/-- Three frames of damage; the second frame fills the window, so the third
waits for the first acknowledgement or its timeout, a second after the first frame. -/
def crowded : List Call :=
  [.damage, .due 0, .frameSent 1 0, .damage, .wait 0, .due 40000000, .frameSent 2 40000000, .damage]

theorem run_paces_crowded :
    ∃ c, (start {}).run crowded = some c ∧ (c.scheduler.wait 80000000).2 = some 920000000 ∧
      c.scheduler.inFlight.length ≤ 2 := by
  have hrun : ∃ c, (start {}).run crowded = some c ∧ (c.scheduler.wait 80000000).2 = some 920000000 := by
    decide
  obtain ⟨c, hc, hwait⟩ := hrun
  exact ⟨c, hc, hwait, (run_paces hc).1⟩

end Caller
end FrameScheduler

end Server
end Farland
