/-
# Display control

The server end of the display control channel (`server/display_control.cpp`).
A client whose window is being dragged sends a layout every few milliseconds,
so a request waits until no other one came for `settle`, or until `maxDelay`
after the first of its burst; then `pollLayout` hands it out. A request for
the layout in effect is dropped.

Of the dynamic channels only what is called on them is here (`calls`, newest
first). Times are whole nanoseconds. What is only logged is left out.

Key theorems: `request_pending`, `pollLayout_eq_some`.
-/
import Farland.Channels.Drdynvc.Server
import Farland.Server.Layouts

namespace Farland
namespace Server

open Channels.Disp (MonitorLayout)
open Channels.Drdynvc (DvcEvent)
open Layouts (Layout Limits)

/-- `DisplayControl::Config`; the limits are the defaults. -/
structure DisplayConfig where
  settle : ℤ := 300000000
  maxDelay : ℤ := 1000000000
  deriving DecidableEq

inductive ChannelCall where
  | openChannel (name : Text)
  | send (id : ℕ) (message : List UInt8)
  | close (id : ℕ)
  deriving DecidableEq

structure DisplayControl where
  config : DisplayConfig
  channelId : ℕ
  opened : Bool := false
  closed : Bool := false
  current : Layout
  pending : Option Layout := none
  firstRequest : ℤ := 0
  lastRequest : ℤ := 0
  calls : List ChannelCall := []

namespace DisplayControl

/-- The channel is opened, and `id` is the id it gets. -/
def create (id : ℕ) (current : Layout) (config : DisplayConfig) : DisplayControl where
  config := config
  channelId := id
  current := current
  calls := [.openChannel Channels.Disp.channelName]

/-- What a message asks for: an error when it is no PDU of the channel, nothing
when it is ignored. -/
def requested (message : List UInt8) : Result (Option Layout) := do
  match ← Channels.Disp.decode message ({} : Limits).maxMonitors with
  | .caps _ => pure none
  | .monitorLayout monitors => pure (Layouts.fromDisp monitors {}).toOption

variable (d : DisplayControl)

/-- A valid layout, requested at `now`. -/
def request (layout : Layout) (now : ℤ) : DisplayControl :=
  if layout = d.pending.getD d.current then d
  else
    { d with
      firstRequest := if d.pending.isSome then d.firstRequest else now
      -- a request for the current layout ends the burst
      pending := if layout = d.current then none else some layout
      lastRequest := now }

def onMessage (message : List UInt8) (now : ℤ) : DisplayControl :=
  match requested message with
  | .error _ =>
    { d with opened := false, closed := true, pending := none, calls := .close d.channelId :: d.calls }
  | .ok none => d
  | .ok (some layout) => d.request layout now

/-- The events of the channel, until it ends. -/
def concerns (id : ℕ) : Bool := id == d.channelId && !d.closed

def handle (event : DvcEvent) (now : ℤ) : DisplayControl × Bool :=
  match event with
  | .capabilitiesReady _ => (d, false)
  | .channelOpened id _ =>
    if d.concerns id then
      ({ d with
          opened := true
          calls := .send d.channelId (Channels.Disp.encode (.caps ({} : Limits).caps)) :: d.calls }, true)
    else (d, false)
  | .channelOpenFailed id _ _ => if d.concerns id then ({ d with closed := true }, true) else (d, false)
  | .channelData id message => if d.concerns id then (d.onMessage message now, true) else (d, false)
  | .channelClosed id =>
    if d.concerns id then ({ d with opened := false, closed := true, pending := none }, true) else (d, false)

def deadline : Option ℤ :=
  d.pending.map fun _ => min (d.lastRequest + d.config.settle) (d.firstRequest + d.config.maxDelay)

def pollLayout (now : ℤ) : DisplayControl × Option Layout :=
  match d.pending, d.deadline with
  | some layout, some due =>
    if now < due then (d, none) else ({ d with current := layout, pending := none }, some layout)
  | _, _ => (d, none)

/-- The layout changed another way. -/
def setCurrent (layout : Layout) : DisplayControl := { d with current := layout }

/-! ### Requests -/

section

variable {d : DisplayControl} {layout : Layout} {now : ℤ}

/-- What waits after a request: the layout, unless it is taken for the current
one and does not wait already. -/
theorem request_pending (d : DisplayControl) (layout : Layout) (now : ℤ) :
    (d.request layout now).pending =
      if layout = d.current ∧ d.pending ≠ some layout then none else some layout := by
  unfold request
  cases hpending : d.pending with
  | none =>
    by_cases hcurrent : layout = d.current
    · simp [hcurrent, hpending]
    · simp [hcurrent]
  | some waiting =>
    by_cases hrepeat : layout = waiting
    · simp [hrepeat, hpending]
    · have hother : waiting ≠ layout := fun h => hrepeat h.symm
      rw [Option.getD_some, if_neg hrepeat]
      by_cases hcurrent : layout = d.current
      · have hdropped : layout = d.current ∧ some waiting ≠ some layout :=
        ⟨hcurrent, fun h => hother (Option.some.inj h)⟩
        rw [if_pos hdropped]
        exact if_pos hcurrent
      · simp [hcurrent]

/-- A repeated request changes nothing. -/
theorem request_repeat (h : d.pending = some layout) (now : ℤ) : d.request layout now = d := by
  unfold request
  rw [h, Option.getD_some, if_pos rfl]

/-- Another request that waits is the last one. -/
theorem request_lastRequest (hwaits : (d.request layout now).pending = some layout) (hnew : d.pending ≠ some layout) :
    (d.request layout now).lastRequest = now := by
  rw [request_pending] at hwaits
  have hcurrent : layout ≠ d.current := by
    intro he
    rw [if_pos ⟨he, hnew⟩] at hwaits
    cases hwaits
  unfold request
  rw [if_neg]
  intro he
  cases hpending : d.pending with
  | none => exact hcurrent (by simpa [hpending] using he)
  | some waiting => exact hnew (by simpa [hpending] using he.symm)

/-- It opens a burst when nothing waited. -/
theorem request_firstRequest (hwaits : (d.request layout now).pending = some layout) :
    (d.request layout now).firstRequest = if d.pending = none then now else d.firstRequest := by
  cases hpending : d.pending with
  | none =>
    have hcurrent : layout ≠ d.current := by
      intro he
      rw [request_pending, if_pos ⟨he, by simp [hpending]⟩] at hwaits
      cases hwaits
    unfold request
    rw [hpending, Option.getD_none, if_neg hcurrent]
    rfl
  | some waiting =>
    unfold request
    split_ifs <;> simp_all

@[simp] theorem request_channelId : (d.request layout now).channelId = d.channelId := by
  unfold request
  split_ifs <;> rfl

@[simp] theorem request_closed : (d.request layout now).closed = d.closed := by
  unfold request
  split_ifs <;> rfl

@[simp] theorem request_config : (d.request layout now).config = d.config := by
  unfold request
  split_ifs <;> rfl

/-! ### Handing out -/

/-- What is handed out waited, and its deadline has passed. -/
theorem pollLayout_eq_some (h : (d.pollLayout now).2 = some layout) :
    d.pending = some layout ∧ (d.pollLayout now).1 = { d with current := layout, pending := none } ∧
      (d.lastRequest + d.config.settle ≤ now ∨ d.firstRequest + d.config.maxDelay ≤ now) := by
  unfold pollLayout deadline at h ⊢
  cases hpending : d.pending with
  | none =>
    rw [hpending] at h
    cases h
  | some waiting =>
    rw [hpending] at h
    simp only [Option.map_some] at h ⊢
    split_ifs at h ⊢ with hearly
    obtain rfl := Option.some.inj h
    exact ⟨rfl, rfl, min_le_iff.mp (not_lt.mp hearly)⟩

theorem pollLayout_eq_none (h : (d.pollLayout now).2 = none) : (d.pollLayout now).1 = d := by
  unfold pollLayout at h ⊢
  split at h
  · split_ifs at h ⊢
    rfl
  · rfl

end

end DisplayControl
end Server
end Farland
