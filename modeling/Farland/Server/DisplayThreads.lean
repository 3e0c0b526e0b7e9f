/-
# The threads that resize the desktop

How a layout the client asks for reaches the desktop. The session thread
(`session.cpp`) hears the client, reads what the desktop thread reported, and
hands the layouts that settled to the desktop thread, in that order, over and
over; the desktop thread (`desktop_session.cpp`) takes all the jobs that wait
at once, applies their layouts one by one, and reports each twice: when it is
applied, and when it is shown. Both ways are queues. Everything else that the
two threads do leaves the layouts alone, the connection is active, and the
graphics pipeline is there, so that no layout makes the connection be
reactivated.

`log` is not in the source: what the client asked for and what was handed out,
newest first. It tells what the desktop should show in the end (`wanted`): the
newest valid layout, or, when the channel ended before that was handed out,
the last one that was.

A report makes its layout the current one of the display control even when a
newer layout has been handed out since. A request for the reported layout is
then dropped, though the desktop is about to leave it. `stale` says that this
happens; in every run without it the last request wins.

Key theorems: **`run_lastWins`**, `lost_resize`.
-/
import Farland.Server.DisplayControl

namespace Farland
namespace Server

open List Option Bool DisplayControl

open Channels.Drdynvc (DvcEvent)
open Layouts (Layout)

/-- What the client asked for and what it got. -/
inductive LayoutEntry where
  /-- A valid request, and whether it found nothing waiting. -/
  | asked (layout : Layout) (now : ℤ) (first : Bool)
  | handed (layout : Layout) (now : ℤ)
  /-- The channel ended, and what waited is given up. -/
  | ended
  deriving DecidableEq

namespace LayoutEntry

/-- The last layout handed out. -/
def lastHanded (initial : Layout) : List LayoutEntry → Layout
  | [] => initial
  | .handed layout _ :: _ => layout
  | .asked _ _ _ :: log => lastHanded initial log
  | .ended :: log => lastHanded initial log

/-- What the desktop should show in the end. -/
def wanted (initial : Layout) : List LayoutEntry → Layout
  | [] => initial
  | .asked layout _ _ :: _ => layout
  | .handed _ _ :: log => wanted initial log
  | .ended :: log => lastHanded initial log

/-- The newest layout asked for is this one, asked for at `t` and since then
only repeated. -/
def NewestSince (log : List LayoutEntry) (layout : Layout) (t : ℤ) : Prop :=
  ∃ repeats first before, log = repeats ++ .asked layout t first :: before ∧
    ∀ e ∈ repeats, ∃ now first, e = .asked layout now first

/-- The burst began at `t`: the request of then found nothing waiting, and
those after it did. -/
def BurstSince (log : List LayoutEntry) (t : ℤ) : Prop :=
  ∃ burst layout before, log = burst ++ .asked layout t true :: before ∧
    ∀ e ∈ burst, ∃ layout now, e = .asked layout now false

/-- A layout that may be handed out at `now`. -/
structure Due (config : DisplayConfig) (log : List LayoutEntry) (layout : Layout) (now : ℤ) : Prop where
  newest : ∃ t, NewestSince log layout t
  due : (∃ t, NewestSince log layout t ∧ t + config.settle ≤ now) ∨ ∃ t, BurstSince log t ∧ t + config.maxDelay ≤ now

variable {log : List LayoutEntry}

theorem NewestSince.wanted {initial : Layout} {layout : Layout} {t : ℤ} (h : NewestSince log layout t) :
    wanted initial log = layout := by
  obtain ⟨repeats, first, before, rfl, hrepeats⟩ := h
  cases repeats with
  | nil => rfl
  | cons e repeats =>
    obtain ⟨now, first', rfl⟩ := hrepeats e mem_cons_self
    rfl

theorem NewestSince.repeat {layout : Layout} {t : ℤ} (h : NewestSince log layout t) (now : ℤ) (first : Bool) :
    NewestSince (.asked layout now first :: log) layout t := by
  obtain ⟨repeats, first', before, rfl, hrepeats⟩ := h
  refine ⟨.asked layout now first :: repeats, first', before, rfl, ?_⟩
  intro e he
  rcases mem_cons.mp he with rfl | he
  · exact ⟨now, first, rfl⟩
  · exact hrepeats e he

theorem newestSince_asked (log : List LayoutEntry) (layout : Layout) (now : ℤ) (first : Bool) :
    NewestSince (.asked layout now first :: log) layout now :=
  ⟨[], first, log, rfl, by simp⟩

theorem BurstSince.more {t : ℤ} (h : BurstSince log t) (layout : Layout) (now : ℤ) :
    BurstSince (.asked layout now false :: log) t := by
  obtain ⟨burst, layout', before, rfl, hburst⟩ := h
  refine ⟨.asked layout now false :: burst, layout', before, rfl, ?_⟩
  intro e he
  rcases mem_cons.mp he with rfl | he
  · exact ⟨layout, now, rfl⟩
  · exact hburst e he

theorem burstSince_asked (log : List LayoutEntry) (layout : Layout) (now : ℤ) :
    BurstSince (.asked layout now true :: log) now :=
  ⟨[], layout, log, rfl, by simp⟩

end LayoutEntry

open LayoutEntry (lastHanded wanted NewestSince BurstSince Due)

structure DisplayThreads where
  display : DisplayControl
  /-- The session thread has read the reports and will hand out next. -/
  serving : Bool := false
  jobs : List Layout := []
  outbox : List Layout := []
  /-- The jobs that the desktop thread took and has not carried out. -/
  batch : List Layout := []
  /-- The layout is applied and will be shown next. -/
  showing : Bool := false
  layout : Layout
  log : List LayoutEntry := []

namespace DisplayThreads

inductive Step where
  | receive (event : DvcEvent) (now : ℤ)
  | carryOutDesktopOutput
  | serviceDisplay (now : ℤ)
  | takeJobs
  | applyLayout
  | showLayout
  deriving DecidableEq

/-- The channel opens on a desktop that shows `initial`; reports of it may still wait. -/
def start (id : ℕ) (config : DisplayConfig) (initial : Layout) (reports : ℕ) : DisplayThreads where
  display := create id initial config
  outbox := List.replicate reports initial
  layout := initial

variable (d : DisplayControl) (event : DvcEvent)

/-- What an event adds to the log. -/
def noted (now : ℤ) : List LayoutEntry :=
  match event with
  | .channelData id message =>
    if d.concerns id then
      match requested message with
      | .error _ => [.ended]
      | .ok none => []
      | .ok (some layout) => [.asked layout now d.pending.isNone]
    else []
  | .channelClosed id => if d.concerns id then [.ended] else []
  | .capabilitiesReady _ | .channelOpened _ _ | .channelOpenFailed _ _ _ => []

variable (s : DisplayThreads)

/-- One step of a thread, when it is where that step comes next. -/
def step : Step → Option DisplayThreads
  | .receive event now =>
    if s.serving then none
    else some { s with display := (s.display.handle event now).1, log := noted s.display event now ++ s.log }
  | .carryOutDesktopOutput =>
    if s.serving then none
    else some { s with display := s.outbox.foldl setCurrent s.display, outbox := [], serving := true }
  | .serviceDisplay now =>
    if s.serving then
      match s.display.pollLayout now with
      | (display, none) => some { s with display, serving := false }
      | (display, some layout) =>
        some { s with display, serving := false, jobs := s.jobs ++ [layout], log := .handed layout now :: s.log }
    else none
  | .takeJobs => if s.batch = [] ∧ s.showing = false then some { s with batch := s.jobs, jobs := [] } else none
  | .applyLayout =>
    if s.showing then none
    else
      match s.batch with
      | [] => none
      | layout :: batch => some { s with batch, layout, outbox := s.outbox ++ [layout], showing := true }
  | .showLayout =>
    if s.showing then some { s with outbox := s.outbox ++ [s.layout], showing := false } else none

def run (s : DisplayThreads) : List Step → Option DisplayThreads
  | [] => some s
  | step :: steps =>
    match s.step step with
    | none => none
    | some s' => s'.run steps

/-- The layout that the desktop shows once the jobs are carried out. -/
def destined : Layout := (s.batch ++ s.jobs).getLast?.getD s.layout

/-- A request for the layout believed current, which does not wait, while the
desktop shows or is about to show another one. -/
def stale : Step → Bool
  | .receive (.channelData id message) _ =>
    s.display.concerns id &&
      match requested message with
      | .ok (some layout) =>
        layout = s.display.current && s.display.pending ≠ some layout && s.destined ≠ layout
      | .ok none | .error _ => false
  | _ => false

/-- No request of the run is stale. -/
def freshRun (s : DisplayThreads) : List Step → Bool
  | [] => true
  | step :: steps =>
    !s.stale step &&
      match s.step step with
      | none => true
      | some s' => s'.freshRun steps

/-- The client stopped, and everything it asked for has passed through. -/
structure Settled (s : DisplayThreads) : Prop where
  pending : s.display.pending = none
  jobs : s.jobs = []
  outbox : s.outbox = []
  batch : s.batch = []
  showing : s.showing = false

instance (s : DisplayThreads) : Decidable s.Settled :=
  decidable_of_iff (s.display.pending = none ∧ s.jobs = [] ∧ s.outbox = [] ∧ s.batch = [] ∧ s.showing = false)
    ⟨fun ⟨hpending, hjobs, houtbox, hbatch, hshowing⟩ => ⟨hpending, hjobs, houtbox, hbatch, hshowing⟩,
      fun h => ⟨h.pending, h.jobs, h.outbox, h.batch, h.showing⟩⟩

/-! ### What one step does -/

theorem handle_config (now : ℤ) : (d.handle event now).1.config = d.config := by
  unfold handle
  split
  · rfl
  · split_ifs <;> rfl
  · split_ifs <;> rfl
  · split_ifs
    · unfold onMessage
      split
      · rfl
      · rfl
      · exact request_config
    · rfl
  · split_ifs <;> rfl

/-- Reports change what is believed current and nothing else. -/
theorem setCurrent_foldl : ∀ (reports : List Layout) (d : DisplayControl),
    ∃ current, reports.foldl setCurrent d = { d with current := current }
  | [], d => ⟨d.current, rfl⟩
  | report :: reports, d => by
    obtain ⟨current, h⟩ := setCurrent_foldl reports (d.setCurrent report)
    exact ⟨current, h⟩

/-- The kinds of events: a request, the end of the channel, and those that
leave both the log and what waits alone. -/
theorem handle_cases (now : ℤ) :
    (∃ id message layout, event = .channelData id message ∧ d.concerns id = true ∧
      requested message = .ok (some layout) ∧ (d.handle event now).1 = d.request layout now ∧
      noted d event now = [.asked layout now d.pending.isNone]) ∨
    ((d.handle event now).1.pending = none ∧ noted d event now = [.ended]) ∨
    ((d.handle event now).1.pending = d.pending ∧ (d.handle event now).1.firstRequest = d.firstRequest ∧
      (d.handle event now).1.lastRequest = d.lastRequest ∧ noted d event now = []) := by
  match event with
  | .capabilitiesReady _ => exact .inr (.inr ⟨rfl, rfl, rfl, rfl⟩)
  | .channelOpened id _ | .channelOpenFailed id _ _ =>
    refine .inr (.inr ?_)
    by_cases hid : d.concerns id = true <;> simp [handle, noted, hid]
  | .channelClosed id =>
    by_cases hid : d.concerns id = true
    · exact .inr (.inl (by simp [handle, noted, hid]))
    · exact .inr (.inr (by simp [handle, noted, hid]))
  | .channelData id message =>
    by_cases hid : d.concerns id = true
    · match hrequested : requested message with
      | .error _ =>
        refine .inr (.inl ?_)
        simp [handle, noted, hid, onMessage, hrequested]
      | .ok none =>
        refine .inr (.inr ?_)
        simp [handle, noted, hid, onMessage, hrequested]
      | .ok (some layout) =>
        refine .inl ⟨id, message, layout, rfl, hid, hrequested, ?_⟩
        simp [handle, noted, hid, onMessage, hrequested]
    · exact .inr (.inr (by simp [handle, noted, hid]))

/-! ### Jobs on their way -/

theorem destined_handed (layout : Layout) :
    ({ s with jobs := s.jobs ++ [layout] } : DisplayThreads).destined = layout := by
  unfold destined
  rw [← append_assoc, getLast?_concat, getD_some]

theorem destined_applied {layout : Layout} {batch : List Layout} (h : s.batch = layout :: batch) :
    ({ s with batch, layout } : DisplayThreads).destined = s.destined := by
  unfold destined
  rw [h, cons_append, getLast?_cons, getD_some]

theorem destined_settled {s : DisplayThreads} (h : s.Settled) : s.destined = s.layout := by
  unfold destined
  rw [h.batch, h.jobs]
  rfl

/-- A step that is neither an event nor a hand-out moves layouts along. -/
structure Moved (s s' : DisplayThreads) : Prop where
  config : s'.display.config = s.display.config
  channelId : s'.display.channelId = s.display.channelId
  closed : s'.display.closed = s.display.closed
  pending : s'.display.pending = s.display.pending
  firstRequest : s'.display.firstRequest = s.display.firstRequest
  lastRequest : s'.display.lastRequest = s.display.lastRequest
  destined : s'.destined = s.destined
  log : s'.log = s.log

/-- What a step can do. -/
theorem step_cases {s s' : DisplayThreads} {step : Step} (h : s.step step = some s') :
    (∃ event now, step = .receive event now ∧
      s' = { s with display := (s.display.handle event now).1, log := noted s.display event now ++ s.log }) ∨
    (∃ now layout, step = .serviceDisplay now ∧ (s.display.pollLayout now).2 = some layout ∧ s' = { s with
        display := (s.display.pollLayout now).1
        serving := false
        jobs := s.jobs ++ [layout]
        log := .handed layout now :: s.log }) ∨
    ((∀ event now, step ≠ .receive event now) ∧ Moved s s') := by
  match step with
  | .receive event now =>
    simp only [DisplayThreads.step] at h
    split_ifs at h
    exact .inl ⟨event, now, rfl, (Option.some.inj h).symm⟩
  | .carryOutDesktopOutput =>
    simp only [DisplayThreads.step] at h
    split_ifs at h
    obtain rfl := Option.some.inj h
    obtain ⟨current, hcurrent⟩ := setCurrent_foldl s.outbox s.display
    refine .inr (.inr ⟨nofun, ?_⟩)
    rw [hcurrent]
    exact ⟨rfl, rfl, rfl, rfl, rfl, rfl, rfl, rfl⟩
  | .serviceDisplay now =>
    simp only [DisplayThreads.step] at h
    split_ifs at h
    rcases hpoll : s.display.pollLayout now with ⟨display, layout | layout⟩
    · have hsame := pollLayout_eq_none (show (s.display.pollLayout now).2 = none by rw [hpoll])
      rw [hpoll] at h hsame
      obtain rfl := Option.some.inj h
      obtain rfl : display = s.display := hsame
      exact .inr (.inr ⟨nofun, rfl, rfl, rfl, rfl, rfl, rfl, rfl, rfl⟩)
    · rw [hpoll] at h
      exact .inr (.inl ⟨now, layout, rfl, by rw [hpoll], by rw [hpoll]; exact (Option.some.inj h).symm⟩)
  | .takeJobs =>
    simp only [DisplayThreads.step] at h
    split_ifs at h with hfree
    obtain rfl := Option.some.inj h
    have hdestined : ({ s with batch := s.jobs, jobs := [] } : DisplayThreads).destined = s.destined := by
      unfold destined
      rw [hfree.1, append_nil, nil_append]
    exact .inr (.inr ⟨nofun, rfl, rfl, rfl, rfl, rfl, rfl, hdestined, rfl⟩)
  | .applyLayout =>
    simp only [DisplayThreads.step] at h
    split_ifs at h
    cases hbatch : s.batch with
    | nil =>
      rw [hbatch] at h
      cases h
    | cons layout batch =>
      rw [hbatch] at h
      obtain rfl := Option.some.inj h
      exact .inr (.inr ⟨nofun, rfl, rfl, rfl, rfl, rfl, rfl, destined_applied s hbatch, rfl⟩)
  | .showLayout =>
    simp only [DisplayThreads.step] at h
    split_ifs at h
    obtain rfl := Option.some.inj h
    exact .inr (.inr ⟨nofun, rfl, rfl, rfl, rfl, rfl, rfl, rfl, rfl⟩)

/-! ### What holds in every run -/

/-- The requests and the hand-outs, as the display control keeps them. -/
structure Inv (config : DisplayConfig) (initial : Layout) (s : DisplayThreads) : Prop where
  sameConfig : s.display.config = config
  onTheWay : s.destined = lastHanded initial s.log
  waiting : ∀ layout, s.display.pending = some layout → NewestSince s.log layout s.display.lastRequest
  burst : s.display.pending ≠ none → BurstSince s.log s.display.firstRequest
  handed : ∀ newer layout now older, s.log = newer ++ .handed layout now :: older → Due config older layout now

section

variable {config : DisplayConfig} {initial : Layout} {s s' : DisplayThreads}

/-- An entry that is no hand-out. -/
theorem Inv.handed_cons (h : Inv config initial s) {e : LayoutEntry} (he : ∀ layout now, e ≠ .handed layout now) :
    ∀ newer layout now older, e :: s.log = newer ++ .handed layout now :: older → Due config older layout now := by
  intro newer layout now older heq
  cases newer with
  | nil => exact absurd (List.cons.inj heq).1 (he layout now)
  | cons _ newer => exact h.handed newer layout now older (List.cons.inj heq).2

theorem Inv.moved (h : Inv config initial s) (hmoved : Moved s s') : Inv config initial s' where
  sameConfig := hmoved.config.trans h.sameConfig
  onTheWay := by
    rw [hmoved.destined, hmoved.log]
    exact h.onTheWay
  waiting := by
    rw [hmoved.pending, hmoved.log, hmoved.lastRequest]
    exact h.waiting
  burst := by
    rw [hmoved.pending, hmoved.log, hmoved.firstRequest]
    exact h.burst
  handed := by
    rw [hmoved.log]
    exact h.handed

/-- A request. -/
theorem Inv.request (h : Inv config initial s) (layout : Layout) (now : ℤ) :
    Inv config initial { s with
        display := s.display.request layout now
        log := .asked layout now s.display.pending.isNone :: s.log } where
  sameConfig := request_config.trans h.sameConfig
  onTheWay := h.onTheWay
  waiting := by
    intro waiting hwaiting
    have hpending := request_pending s.display layout now
    rw [hwaiting] at hpending
    split_ifs at hpending
    obtain rfl : waiting = layout := Option.some.inj hpending
    by_cases hrepeat : s.display.pending = some waiting
    · rw [request_repeat hrepeat now]
      exact (h.waiting waiting hrepeat).repeat now _
    · rw [request_lastRequest hwaiting hrepeat]
      exact LayoutEntry.newestSince_asked s.log waiting now _
  burst := by
    intro hsome
    have hpending := request_pending s.display layout now
    split_ifs at hpending
    · exact absurd hpending hsome
    · rw [request_firstRequest hpending]
      by_cases hnone : s.display.pending = none
      · rw [hnone]
        exact LayoutEntry.burstSince_asked s.log layout now
      · rw [if_neg hnone, isNone_eq_false_iff.mpr (isSome_iff_ne_none.mpr hnone)]
        exact (h.burst hnone).more layout now
  handed := h.handed_cons fun _ _ he => by cases he

variable {d : DisplayControl}

/-- The channel ends. -/
theorem Inv.ended (h : Inv config initial s) (hconfig : d.config = s.display.config) (hpending : d.pending = none) :
    Inv config initial { s with display := d, log := .ended :: s.log } where
  sameConfig := hconfig.trans h.sameConfig
  onTheWay := h.onTheWay
  waiting := fun layout hlayout => by
    rw [hpending] at hlayout
    cases hlayout
  burst := fun hsome => absurd hpending hsome
  handed := h.handed_cons fun _ _ he => by cases he

/-- An event that says nothing. -/
theorem Inv.unheard (h : Inv config initial s) (hconfig : d.config = s.display.config)
    (hpending : d.pending = s.display.pending) (hfirst : d.firstRequest = s.display.firstRequest)
    (hlast : d.lastRequest = s.display.lastRequest) : Inv config initial { s with display := d } where
  sameConfig := hconfig.trans h.sameConfig
  onTheWay := h.onTheWay
  waiting := by
    rw [hpending, hlast]
    exact h.waiting
  burst := by
    rw [hpending, hfirst]
    exact h.burst
  handed := h.handed

theorem Inv.receive (h : Inv config initial s) (event : DvcEvent) (now : ℤ) :
    Inv config initial
      { s with display := (s.display.handle event now).1, log := noted s.display event now ++ s.log } := by
  have hconfig := handle_config s.display event now
  rcases handle_cases s.display event now with
    ⟨id, message, layout, rfl, -, -, hdisplay, hnoted⟩ | ⟨hpending, hnoted⟩ | ⟨hpending, hfirst, hlast, hnoted⟩
  · rw [hdisplay, hnoted]
    exact h.request layout now
  · rw [hnoted]
    exact h.ended hconfig hpending
  · rw [hnoted]
    exact h.unheard hconfig hpending hfirst hlast

/-- A hand-out. -/
theorem Inv.hand (h : Inv config initial s) {now : ℤ} {layout : Layout}
    (hpoll : (s.display.pollLayout now).2 = some layout) :
    Inv config initial
      { s with
        display := (s.display.pollLayout now).1
        serving := false
        jobs := s.jobs ++ [layout]
        log := .handed layout now :: s.log } := by
  obtain ⟨hpending, hdisplay, hdue⟩ := pollLayout_eq_some hpoll
  have hnewest := h.waiting layout hpending
  have hburst := h.burst (by simp [hpending])
  rw [h.sameConfig] at hdue
  rw [hdisplay]
  exact
    { sameConfig := h.sameConfig
      onTheWay := destined_handed s layout
      waiting := fun _ hnone => by cases hnone
      burst := fun hsome => absurd rfl hsome
      handed := by
        intro newer layout' now' older heq
        cases newer with
        | nil =>
          obtain ⟨he, rfl⟩ := List.cons.inj heq
          obtain ⟨rfl, rfl⟩ := LayoutEntry.handed.inj he
          refine ⟨⟨_, hnewest⟩, hdue.imp (fun hsettled => ⟨_, hnewest, hsettled⟩) fun hlong => ⟨_, hburst, hlong⟩⟩
        | cons _ newer => exact h.handed newer layout' now' older (List.cons.inj heq).2 }

theorem Inv.step (h : Inv config initial s) {step : Step} (hstep : s.step step = some s') : Inv config initial s' := by
  rcases step_cases hstep with ⟨event, now, -, rfl⟩ | ⟨now, layout, -, hpoll, rfl⟩ | ⟨-, hmoved⟩
  · exact h.receive event now
  · exact h.hand hpoll
  · exact h.moved hmoved

theorem run_inv : ∀ {steps : List Step} {s : DisplayThreads}, Inv config initial s → s.run steps = some s' →
    Inv config initial s'
  | [], s, h, hrun => by
    obtain rfl := Option.some.inj hrun
    exact h
  | step :: steps, s, h, hrun => by
    rw [run] at hrun
    cases hstep : s.step step with
    | none =>
      rw [hstep] at hrun
      cases hrun
    | some next =>
      rw [hstep] at hrun
      exact @run_inv steps next (h.step hstep) hrun

theorem inv_start (id : ℕ) (config : DisplayConfig) (initial : Layout) (reports : ℕ) :
    Inv config initial (start id config initial reports) where
  sameConfig := rfl
  onTheWay := rfl
  waiting := fun _ hnone => by cases hnone
  burst := fun hsome => absurd rfl hsome
  handed := fun newer _ _ _ heq => by cases newer <;> cases heq

/-! ### The last request wins -/

/-- What is wanted is on its way when nothing waits. -/
def Kept (initial : Layout) (s : DisplayThreads) : Prop :=
  s.display.pending = none → wanted initial s.log = lastHanded initial s.log

/-- Of the requests only a stale one is lost. -/
theorem Kept.receive (h : Inv config initial s) (hkept : Kept initial s) {event : DvcEvent} {now : ℤ}
    (hfresh : s.stale (.receive event now) = false) :
    Kept initial { s with display := (s.display.handle event now).1, log := noted s.display event now ++ s.log } := by
  intro hnone
  rcases handle_cases s.display event now with
    ⟨id, message, layout, rfl, hconcerns, hrequested, hdisplay, hnoted⟩ | ⟨-, hnoted⟩ | ⟨hpending, -, -, hnoted⟩
  · replace hnone : (s.display.request layout now).pending = none := by
      rw [← hdisplay]
      exact hnone
    rw [request_pending] at hnone
    split_ifs at hnone with hcurrent
    have hdestined : s.destined = layout := by
      by_contra hother
      have hstale : s.stale (.receive (.channelData id message) now) = true := by
        simp [stale, hconcerns, hrequested, ← hcurrent.1, hcurrent.2, hother]
      rw [hfresh] at hstale
      cases hstale
    rw [hnoted]
    show layout = lastHanded initial s.log
    rw [← h.onTheWay, hdestined]
  · rw [hnoted]
    rfl
  · rw [hnoted]
    apply hkept
    rw [← hpending]
    exact hnone

theorem Kept.step (h : Inv config initial s) (hkept : Kept initial s) {step : Step} (hfresh : s.stale step = false)
    (hstep : s.step step = some s') : Kept initial s' := by
  rcases step_cases hstep with ⟨event, now, rfl, rfl⟩ | ⟨now, layout, -, hpoll, rfl⟩ | ⟨-, hmoved⟩
  · exact hkept.receive h hfresh
  · intro _
    obtain ⟨hpending, -, -⟩ := pollLayout_eq_some hpoll
    exact (h.waiting layout hpending).wanted
  · unfold Kept
    rw [hmoved.pending, hmoved.log]
    exact hkept

theorem run_kept : ∀ {steps : List Step} {s : DisplayThreads}, Inv config initial s → Kept initial s →
    s.freshRun steps = true → s.run steps = some s' → Kept initial s'
  | [], s, _, hkept, _, hrun => by
    obtain rfl := Option.some.inj hrun
    exact hkept
  | step :: steps, s, h, hkept, hfresh, hrun => by
    rw [run] at hrun
    cases hstep : s.step step with
    | none =>
      rw [hstep] at hrun
      cases hrun
    | some next =>
      rw [hstep] at hrun
      rw [freshRun, hstep, and_eq_true, not_eq_true'] at hfresh
      exact @run_kept steps next (h.step hstep) (hkept.step h hfresh.1 hstep) hfresh.2 hrun

/-! ### The messages of the client -/

/-- The valid layout that a message on the channel asks for. -/
def asksFor (id : ℕ) : Step → Option Layout
  | .receive (.channelData id' message) _ =>
    if id' = id then
      match requested message with
      | .ok layout => layout
      | .error _ => none
    else none
  | _ => none

/-- The last valid layout the client sent, or the initial one. -/
def lastValid (id : ℕ) (initial : Layout) (steps : List Step) : Layout :=
  steps.foldl (fun layout step => (asksFor id step).getD layout) initial

/-- The channel stays open: what comes on it is a display control message. -/
def keepsOpen (id : ℕ) : Step → Bool
  | .receive (.channelData id' message) _ => id' ≠ id || (requested message).isOk
  | .receive (.channelOpenFailed id' _ _) _ | .receive (.channelClosed id') _ => id' ≠ id
  | _ => true

/-- On an open channel, what is wanted follows the messages. -/
theorem handle_open {id : ℕ} (hid : d.channelId = id) (hopen : d.closed = false) {event : DvcEvent} {now : ℤ}
    (h : keepsOpen id (.receive event now) = true) :
    (d.handle event now).1.channelId = id ∧ (d.handle event now).1.closed = false ∧
      ∀ log, wanted initial (noted d event now ++ log) =
        (asksFor id (.receive event now)).getD (wanted initial log) := by
  have hconcerns : ∀ id', d.concerns id' = decide (id' = id) := by
    intro id'
    unfold concerns
    rw [hid, hopen, Bool.not_false, Bool.and_true]
    rfl
  match event with
  | .capabilitiesReady _ => exact ⟨hid, hopen, fun _ => rfl⟩
  | .channelOpened id' _ =>
    by_cases hother : id' = id <;>
      simp [handle, hconcerns, hother, hid, hopen, noted, asksFor]
  | .channelOpenFailed id' _ _ =>
    have hother : id' ≠ id := by simpa [keepsOpen] using h
    simp [handle, hconcerns, hother, hid, hopen, noted, asksFor]
  | .channelClosed id' =>
    have hother : id' ≠ id := by simpa [keepsOpen] using h
    simp [handle, hconcerns, hother, hid, hopen, noted, asksFor]
  | .channelData id' message =>
    by_cases hother : id' = id
    · match hrequested : requested message with
      | .error _ => simp [keepsOpen, hother, hrequested, Except.toBool] at h
      | .ok none =>
        simp [handle, hconcerns, hother, hid, hopen, noted, asksFor, hrequested, onMessage]
      | .ok (some layout) =>
        simp [handle, hconcerns, hother, hid, hopen, noted, asksFor, hrequested, onMessage, wanted]
    · simp [handle, hconcerns, hother, hid, hopen, noted, asksFor]

theorem run_lastValid {id : ℕ} : ∀ {steps : List Step} {s : DisplayThreads}, s.display.channelId = id →
    s.display.closed = false → (∀ step ∈ steps, keepsOpen id step = true) → s.run steps = some s' →
    wanted initial s'.log = lastValid id (wanted initial s.log) steps
  | [], s, _, _, _, hrun => by
    obtain rfl := Option.some.inj hrun
    rfl
  | step :: steps, s, hid, hclosed, hopen, hrun => by
    rw [run] at hrun
    cases hstep : s.step step with
    | none =>
      rw [hstep] at hrun
      cases hrun
    | some next =>
      rw [hstep] at hrun
      have hrest : ∀ step ∈ steps, keepsOpen id step = true := fun x hx => hopen x (mem_cons_of_mem _ hx)
      have hnext : next.display.channelId = id ∧ next.display.closed = false ∧
          wanted initial next.log = (asksFor id step).getD (wanted initial s.log) := by
        rcases step_cases hstep with ⟨event, now, rfl, rfl⟩ | ⟨now, layout, rfl, hpoll, rfl⟩ | ⟨hquiet, hmoved⟩
        · obtain ⟨hid', hclosed', hwanted⟩ := @handle_open initial _ _ hid hclosed _ _ (hopen _ mem_cons_self)
          exact ⟨hid', hclosed', hwanted s.log⟩
        · obtain ⟨-, hdisplay, -⟩ := pollLayout_eq_some hpoll
          rw [hdisplay]
          exact ⟨hid, hclosed, rfl⟩
        · have hasks : asksFor id step = none := by
            cases step with
            | receive event now => exact absurd rfl (hquiet event now)
            | _ => rfl
          refine ⟨hmoved.channelId.trans hid, hmoved.closed.trans hclosed, ?_⟩
          rw [hmoved.log, hasks, getD_none]
      rw [@run_lastValid id steps next hnext.1 hnext.2.1 hrest hrun, hnext.2.2]
      rfl

/-! ### The result -/

/-- **What is handed out is due, and the last layout asked for wins**, in every
run without a stale request: once everything has passed through, the desktop
shows what is wanted. That is the last valid layout the client sent, as long
as the channel stays open. -/
theorem run_lastWins {id : ℕ} {reports : ℕ} {steps : List Step}
    (hrun : (start id config initial reports).run steps = some s) :
    (∀ newer layout now older, s.log = newer ++ .handed layout now :: older → Due config older layout now) ∧
      ((start id config initial reports).freshRun steps = true → s.Settled → s.layout = wanted initial s.log ∧
          ((∀ step ∈ steps, keepsOpen id step = true) → s.layout = lastValid id initial steps)) := by
  have hinv := run_inv (inv_start id config initial reports) hrun
  refine ⟨hinv.handed, fun hfresh hsettled => ?_⟩
  have hkept := run_kept (inv_start id config initial reports) (fun _ => rfl) hfresh hrun
  have hwanted : s.layout = wanted initial s.log := by
    rw [hkept hsettled.pending, ← hinv.onTheWay, destined_settled hsettled]
  refine ⟨hwanted, fun hopen => ?_⟩
  rw [hwanted]
  exact run_lastValid rfl rfl hopen hrun

end

/-! ### A lost resize -/

/-- A request for one window of this size. -/
def window (width height : ℕ) : List UInt8 :=
  Channels.Disp.encode (.monitorLayout [{ flags := 1, width, height }])

/-- The desktop before the first request. -/
def smallDesktop : Layout := Layouts.single 1024 768

/-- A larger window is asked for and handed out. -/
def enlarge : List Step :=
  [.receive (.channelData 7 (window 1280 720)) 0, .carryOutDesktopOutput, .serviceDisplay 300000000]

/-- The desktop thread applies and shows a layout. -/
def carryOutJob : List Step := [.takeJobs, .applyLayout, .showLayout]

/-- The reports are read with nothing to hand out. -/
def readReports (now : ℤ) : List Step := [.carryOutDesktopOutput, .serviceDisplay now]

def resize : List Step := enlarge ++ carryOutJob ++ readReports 310000000

theorem run_lastWins_resize :
    ∃ s, (start 7 {} smallDesktop 0).run resize = some s ∧ s.Settled ∧ s.layout = lastValid 7 smallDesktop resize := by
  have hrun : ((start 7 {} smallDesktop 0).run resize).any (fun s => s.Settled) = true := by decide +kernel
  obtain ⟨s, hs, hdecided⟩ := (Option.any_eq_true _ _).mp hrun
  have hsettled := of_decide_eq_true hdecided
  exact ⟨s, hs, hsettled, ((run_lastWins hs).2 (by decide +kernel) hsettled).2 (by decide +kernel)⟩

/-- The window is enlarged, made smaller again while the first report is on its
way, and enlarged once more after that report was read. -/
def lost : List Step :=
  enlarge ++
    [.receive (.channelData 7 (window 800 600)) 310000000, .carryOutDesktopOutput] ++ carryOutJob ++
    [.serviceDisplay 610000000] ++ readReports 620000000 ++
    [.receive (.channelData 7 (window 1280 720)) 700000000] ++ readReports 1000000000 ++
    carryOutJob ++ readReports 2000000000

/-- **The run that loses a resize**: the desktop keeps the smaller window. -/
theorem lost_resize :
    ∃ s, (start 7 {} smallDesktop 0).run lost = some s ∧ s.Settled ∧ (∀ step ∈ lost, keepsOpen 7 step = true) ∧
      s.layout ≠ lastValid 7 smallDesktop lost := by
  have hrun : ((start 7 {} smallDesktop 0).run lost).any
      (fun s => s.Settled ∧ s.layout ≠ lastValid 7 smallDesktop lost) = true := by decide +kernel
  obtain ⟨s, hs, hlost⟩ := (Option.any_eq_true _ _).mp hrun
  obtain ⟨hsettled, hlayout⟩ := of_decide_eq_true hlost
  exact ⟨s, hs, hsettled, by decide +kernel, hlayout⟩

end DisplayThreads
end Server
end Farland
