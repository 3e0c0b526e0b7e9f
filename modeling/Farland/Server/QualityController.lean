/-
# The quality ladder

The hysteresis of the congestion control (`server/quality_controller.cpp`):
four tiers, of which 0 is the best, two streaks of samples, the times of the
last sample and of the last step in each direction, and the wait for a step
up, which a step up that fails doubles. What `classify` answers is an argument
(`Judged`), so a run gives it any answers whatever; the output rate and the
acknowledgements that only it reads, and what a tier means to the encoders,
are left out. Times and durations are whole numbers of clock ticks.

A step up fails when a step down follows within `failedUpshiftWindow`. The
time of the step up stays, so a second step down in the window doubles the
wait once more.

Key theorems: `run_hysteresis`, `doubled_twice`.
-/
import Mathlib.Tactic

namespace Farland
namespace Server
namespace Quality

open List Nat Bool

def tierCount : ℕ := 4

instance : NeZero tierCount := ⟨by decide⟩

/-- `QualityController::Config`, as far as `update` reads it. -/
structure Config where
  sampleInterval : ℤ := 500000000
  downshiftSamples : ℕ := 2
  settleTime : ℤ := 2000000000
  upshiftWait : ℤ := 5000000000
  maxUpshiftWait : ℤ := 60000000000
  failedUpshiftWindow : ℤ := 15000000000
  deriving DecidableEq

inductive Verdict where
  | clear
  | hold
  | congested
  | severe
  deriving DecidableEq

/-- What `classify` answers: the verdict, and the level that fits the bandwidth. -/
structure Judged where
  verdict : Verdict
  fitLevel : Fin tierCount
  deriving DecidableEq

structure QualityController where
  config : Config
  level : ℕ
  upshiftWait : ℤ
  lastSample : Option ℤ := none
  lastDownshift : Option ℤ := none
  lastUpshift : Option ℤ := none
  /-- 32-bit counters. -/
  congestedStreak : ℕ := 0
  clearStreak : ℕ := 0
  deriving DecidableEq

namespace QualityController

/-- The constructor, with the level that fits the bandwidth of connect time. -/
def create (config : Config) (initial : Option (Fin tierCount)) : QualityController where
  config := { config with downshiftSamples := max config.downshiftSamples 1 }
  level := initial.elim 0 (·.val)
  upshiftWait := config.upshiftWait

/-- Less than `limit` after the time, if there is one. -/
def within (time : Option ℤ) (now limit : ℤ) : Bool :=
  match time with
  | some t => now - t < limit
  | none => false

variable (c : QualityController)

/-- A call between samples. -/
def tooSoon (now : ℤ) : Bool := within c.lastSample now c.config.sampleInterval

def changeTo (level : ℕ) : QualityController × Option ℕ :=
  ({ c with level := min level (tierCount - 1), congestedStreak := 0, clearStreak := 0 },
    some (min level (tierCount - 1)))

/-- One more congested sample, severe or not. -/
def countCongested : QualityController :=
  { c with clearStreak := 0, congestedStreak := (c.congestedStreak + 1) % 2 ^ 32 }

/-- Whether the counted sample is one to step down on. -/
def downshiftDue (verdict : Verdict) (now : ℤ) : Bool :=
  c.level + 1 < tierCount && !within c.lastDownshift now c.config.settleTime &&
    !(verdict == .congested && c.congestedStreak < c.config.downshiftSamples)

/-- A step up that is undone within its window doubles the wait. -/
def failUpshift (now : ℤ) : QualityController :=
  { c with
    upshiftWait :=
      if within c.lastUpshift now c.config.failedUpshiftWindow then min (c.upshiftWait * 2) c.config.maxUpshiftWait
      else c.upshiftWait }

def onCongested (j : Judged) (now : ℤ) : QualityController × Option ℕ :=
  let c := c.countCongested
  if c.downshiftDue j.verdict now then
    let level := max (c.level + 1) (min j.fitLevel (tierCount - 1))
    let c := c.failUpshift now
    { c with lastDownshift := some now }.changeTo level
  else (c, none)

/-- One more clear sample; a long time without congestion earns back the short wait. -/
def countClear (now : ℤ) : QualityController :=
  { c with
    congestedStreak := 0
    clearStreak := (c.clearStreak + 1) % 2 ^ 32
    upshiftWait :=
      if c.lastDownshift.isSome && !within c.lastDownshift now c.config.maxUpshiftWait then c.config.upshiftWait
      else c.upshiftWait }

def onClear (now : ℤ) : QualityController × Option ℕ :=
  let c := c.countClear now
  if c.level = 0 ∨ c.config.sampleInterval * c.clearStreak < c.upshiftWait then (c, none)
  else { c with lastUpshift := some now }.changeTo (c.level - 1)

/-- Feeds a sample; the new level when it changes. -/
def update (j : Judged) (now : ℤ) : QualityController × Option ℕ :=
  if c.tooSoon now then (c, none)
  else
    let c := { c with lastSample := some now }
    match j.verdict with
    | .severe | .congested => c.onCongested j now
    | .clear => c.onClear now
    | .hold => ({ c with congestedStreak := 0, clearStreak := 0 }, none)

/-! ### Runs -/

structure Call where
  now : ℤ
  judged : Judged
  deriving DecidableEq

/-- A call that was a sample, with the controller before and after it. -/
structure Sample where
  call : Call
  before : QualityController
  after : QualityController
  deriving DecidableEq

variable (s : Sample)

def Sample.now : ℤ := s.call.now
def Sample.verdict : Verdict := s.call.judged.verdict
def Sample.down : Bool := s.before.level < s.after.level
def Sample.up : Bool := s.after.level < s.before.level

/-- A congested sample, severe or not, that changes no tier. -/
def Sample.staysCongested : Bool :=
  (s.verdict == .congested || s.verdict == .severe) && s.after.level == s.before.level

def Sample.staysClear : Bool := s.verdict == .clear && s.after.level == s.before.level

/-- The controller after one more call, and the samples so far, newest first. -/
def next (r : QualityController × List Sample) (call : Call) : QualityController × List Sample :=
  let after := (r.1.update call.judged call.now).1
  (after, if r.1.tooSoon call.now then r.2 else ⟨call, r.1, after⟩ :: r.2)

def run (config : Config) (initial : Option (Fin tierCount)) (calls : List Call) : QualityController × List Sample :=
  calls.foldl next (create config initial, [])

/-- A step down has come since the last step up. -/
def failedAlready (log : List Sample) : Bool := (log.takeWhile fun s => !s.up).any Sample.down

/-- The call is a sample that steps down within the window of the last step up. -/
def Fails (call : Call) : Prop :=
  c.tooSoon call.now = false ∧ (call.judged.verdict = .congested ∨ call.judged.verdict = .severe) ∧
    c.countCongested.downshiftDue call.judged.verdict call.now ∧
    within c.lastUpshift call.now c.config.failedUpshiftWindow

/-- Neither fails a step up for the second time while the wait can still grow,
nor doubles a negative wait. -/
def Meets (log : List Sample) (call : Call) : Prop :=
  c.Fails call → (failedAlready log → c.upshiftWait = c.config.maxUpshiftWait) ∧
    (0 ≤ c.upshiftWait ∨ c.config.maxUpshiftWait ≤ c.upshiftWait * 2)

/-- What a sample does, given the older ones. -/
structure Obeys (config : Config) (before : List Sample) (e : Sample) : Prop where
  /-- A step down goes at least one level down, and to the level that fits. -/
  down : e.down → e.before.level + 1 ≤ e.after.level ∧ e.call.judged.fitLevel ≤ e.after.level
  /-- It comes `settleTime` after the previous one. -/
  settled : e.down → ∀ d, before.find? Sample.down = some d → config.settleTime ≤ e.now - d.now
  /-- Unless severe, it ends a streak of congested samples. -/
  streak : e.down → e.verdict = .severe ∨
    e.verdict = .congested ∧ config.downshiftSamples ≤ (before.takeWhile Sample.staysCongested).length + 1
  /-- A step up goes one level up, at the end of a streak of clear samples. -/
  up : e.up → e.after.level + 1 = e.before.level ∧ e.verdict = .clear ∧
    ∃ k ≤ (before.takeWhile Sample.staysClear).length + 1, e.after.upshiftWait ≤ config.sampleInterval * k
  /-- The step down that fails a step up doubles the wait. -/
  doubles : e.down → ∀ u, before.find? Sample.up = some u → e.now - u.now < config.failedUpshiftWindow →
    failedAlready before = false → e.after.upshiftWait = min (e.before.upshiftWait * 2) config.maxUpshiftWait
  /-- Once is enough. -/
  once : e.down → failedAlready before → e.after.upshiftWait = e.before.upshiftWait
  /-- Nothing else lengthens the wait. -/
  keeps : ¬ (e.down ∧ ∃ u, before.find? Sample.up = some u ∧ e.now - u.now < config.failedUpshiftWindow) →
    e.after.upshiftWait = e.before.upshiftWait ∨ e.verdict = .clear ∧ e.after.upshiftWait = config.upshiftWait

/-! ### What one call can do -/

/-- The effect of a sample, by its kind. -/
inductive Stepped (c : QualityController) (j : Judged) (now : ℤ) : QualityController → Prop
  | hold (hv : j.verdict = .hold) :
    Stepped c j now { c with lastSample := some now, congestedStreak := 0, clearStreak := 0 }
  | congested (hv : j.verdict = .congested ∨ j.verdict = .severe) :
    Stepped c j now { c.countCongested with lastSample := some now }
  | down (hv : j.verdict = .congested ∨ j.verdict = .severe) (hdue : c.countCongested.downshiftDue j.verdict now) :
    Stepped c j now
      { c.failUpshift now with
        level := max (c.level + 1) j.fitLevel, lastSample := some now, lastDownshift := some now
        congestedStreak := 0, clearStreak := 0 }
  | clear (hv : j.verdict = .clear) : Stepped c j now { c.countClear now with lastSample := some now }
  | up (hv : j.verdict = .clear) (hlevel : c.level ≠ 0)
      (hwait : (c.countClear now).upshiftWait ≤ c.config.sampleInterval * (c.countClear now).clearStreak) :
    Stepped c j now
      { c.countClear now with
        level := c.level - 1, lastSample := some now, lastUpshift := some now
        congestedStreak := 0, clearStreak := 0 }

variable {c : QualityController} {now : ℤ}

theorem update_tooSoon {j : Judged} (h : c.tooSoon now = true) : c.update j now = (c, none) := by
  rw [update, if_pos h]

theorem onCongested_stepped {j : Judged} (hv : j.verdict = .congested ∨ j.verdict = .severe) :
    Stepped c j now ({ c with lastSample := some now }.onCongested j now).1 := by
  have hfit : (j.fitLevel : ℕ) ≤ tierCount - 1 := le_sub_one_of_lt j.fitLevel.isLt
  by_cases hdue : c.countCongested.downshiftDue j.verdict now = true
  · have hlevel : c.level + 1 < tierCount := by
      unfold downshiftDue countCongested at hdue
      simp only [and_eq_true, decide_eq_true_eq] at hdue
      exact hdue.1.1
    have heq : ({ c with lastSample := some now }.onCongested j now).1 = { c.failUpshift now with
          level := max (c.level + 1) j.fitLevel, lastSample := some now, lastDownshift := some now
          congestedStreak := 0, clearStreak := 0 } := by
      have hdue' : ({ c with lastSample := some now } : QualityController).countCongested.downshiftDue j.verdict now =
        true := hdue
      unfold onCongested
      rw [if_pos hdue']
      have hmax : max (c.level + 1) (j.fitLevel : ℕ) ≤ tierCount - 1 := by omega
      simp only [changeTo, countCongested, Nat.min_eq_left hfit, Nat.min_eq_left hmax]
      rfl
    rw [heq]
    exact .down hv hdue
  · have heq : ({ c with lastSample := some now }.onCongested j now).1 =
        { c.countCongested with lastSample := some now } := by
      have hdue' : ¬ ({ c with lastSample := some now } : QualityController).countCongested.downshiftDue j.verdict now =
        true := hdue
      unfold onCongested
      rw [if_neg hdue']
      rfl
    rw [heq]
    exact .congested hv

theorem onClear_stepped {j : Judged} (hv : j.verdict = .clear) (hlevel : c.level ≤ tierCount - 1) :
    Stepped c j now ({ c with lastSample := some now }.onClear now).1 := by
  by_cases hstay : c.level = 0 ∨
      c.config.sampleInterval * (c.countClear now).clearStreak < (c.countClear now).upshiftWait
  · have heq : ({ c with lastSample := some now }.onClear now).1 =
    { c.countClear now with lastSample := some now } := by
      have hstay' : ({ c with lastSample := some now }.countClear now).level = 0 ∨
          ({ c with lastSample := some now }.countClear now).config.sampleInterval *
              (({ c with lastSample := some now }.countClear now).clearStreak : ℤ) <
            ({ c with lastSample := some now }.countClear now).upshiftWait := hstay
      unfold onClear
      rw [if_pos hstay']
      rfl
    rw [heq]
    exact .clear hv
  · have heq : ({ c with lastSample := some now }.onClear now).1 = { c.countClear now with
          level := c.level - 1, lastSample := some now, lastUpshift := some now
          congestedStreak := 0, clearStreak := 0 } := by
      have hstay' : ¬ (({ c with lastSample := some now }.countClear now).level = 0 ∨
          ({ c with lastSample := some now }.countClear now).config.sampleInterval *
              (({ c with lastSample := some now }.countClear now).clearStreak : ℤ) <
            ({ c with lastSample := some now }.countClear now).upshiftWait) := hstay
      unfold onClear
      rw [if_neg hstay']
      have hmin : c.level - 1 ≤ tierCount - 1 := by omega
      simp only [changeTo, countClear, Nat.min_eq_left hmin]
    rw [heq]
    push Not at hstay
    exact .up hv hstay.1 hstay.2

/-- **What a sample does.** -/
theorem update_stepped (j : Judged) (h : c.tooSoon now = false) (hlevel : c.level ≤ tierCount - 1) :
    Stepped c j now (c.update j now).1 := by
  have hnot : ¬ c.tooSoon now = true := by simp [h]
  unfold update
  rw [if_neg hnot]
  split
  · rename_i hv
    exact onCongested_stepped (.inr hv)
  · rename_i hv
    exact onCongested_stepped (.inl hv)
  · rename_i hv
    exact onClear_stepped hv hlevel
  · rename_i hv
    exact .hold hv

/-! ### What holds over a run -/

/-- What the controller remembers of its samples. -/
structure Inv (config : Config) (c : QualityController) (log : List Sample) : Prop where
  config_eq : c.config = { config with downshiftSamples := max config.downshiftSamples 1 }
  level : c.level ≤ tierCount - 1
  lastSample : c.lastSample = log.head?.map Sample.now
  lastDownshift : c.lastDownshift = (log.find? Sample.down).map Sample.now
  lastUpshift : c.lastUpshift = (log.find? Sample.up).map Sample.now
  congested : c.congestedStreak ≤ (log.takeWhile Sample.staysCongested).length
  clear : c.clearStreak ≤ (log.takeWhile Sample.staysClear).length

/-- Where the wait for a step up stays. -/
def WaitBounded (config : Config) (c : QualityController) : Prop :=
  min config.upshiftWait config.maxUpshiftWait ≤ c.upshiftWait ∧
    c.upshiftWait ≤ max config.upshiftWait config.maxUpshiftWait

variable (config : Config) (initial : Option (Fin tierCount))

theorem Inv.create : Inv config (create config initial) [] where
  config_eq := rfl
  level := by
    cases initial with
    | none => exact Nat.zero_le _
    | some level => exact le_sub_one_of_lt level.isLt
  lastSample := rfl
  lastDownshift := rfl
  lastUpshift := rfl
  congested := Nat.le_refl _
  clear := Nat.le_refl _

section

variable {config : Config} {c c' : QualityController} {log : List Sample} {call : Call}

/-- A sample keeps what the controller remembers. -/
theorem Inv.sample (h : Inv config c log) (hs : Stepped c call.judged call.now c') :
    Inv config c' (⟨call, c, c'⟩ :: log) := by
  cases hs with
  | hold hv =>
    exact {
      config_eq := h.config_eq
      level := h.level
      lastSample := rfl
      lastDownshift := by simp [Sample.down, h.lastDownshift]
      lastUpshift := by simp [Sample.up, h.lastUpshift]
      congested := Nat.zero_le _
      clear := Nat.zero_le _ }
  | congested hv =>
    have hcount : (c.congestedStreak + 1) % 2 ^ 32 ≤ (log.takeWhile Sample.staysCongested).length + 1 :=
      (mod_le _ _).trans (succ_le_succ h.congested)
    have hstays : Sample.staysCongested ⟨call, c, { c.countCongested with lastSample := some call.now }⟩ = true := by
      rcases hv with hv | hv <;> simp [Sample.staysCongested, Sample.verdict, hv, countCongested]
    exact {
      config_eq := h.config_eq
      level := h.level
      lastSample := rfl
      lastDownshift := by simpa [Sample.down, countCongested] using h.lastDownshift
      lastUpshift := by simpa [Sample.up, countCongested] using h.lastUpshift
      congested := by rw [takeWhile_cons_of_pos hstays]; exact hcount
      clear := Nat.zero_le _ }
  | down hv hdue =>
    have hlevel : c.level + 1 < tierCount := by
      simp only [downshiftDue, and_eq_true] at hdue
      exact of_decide_eq_true hdue.1.1
    exact {
      config_eq := h.config_eq
      level := by dsimp only; omega
      lastSample := rfl
      lastDownshift := by simp [Sample.down, Sample.now]
      lastUpshift := by simpa [Sample.up, failUpshift] using h.lastUpshift
      congested := Nat.zero_le _
      clear := Nat.zero_le _ }
  | clear hv =>
    have hcount : (c.clearStreak + 1) % 2 ^ 32 ≤ (log.takeWhile Sample.staysClear).length + 1 :=
      (mod_le _ _).trans (succ_le_succ h.clear)
    have hstays : Sample.staysClear ⟨call, c, { c.countClear call.now with lastSample := some call.now }⟩ = true := by
      simp [Sample.staysClear, Sample.verdict, hv, countClear]
    exact {
      config_eq := h.config_eq
      level := h.level
      lastSample := rfl
      lastDownshift := by simpa [Sample.down, countClear] using h.lastDownshift
      lastUpshift := by simpa [Sample.up, countClear] using h.lastUpshift
      congested := Nat.zero_le _
      clear := by rw [takeWhile_cons_of_pos hstays]; exact hcount }
  | up hv hlevel hwait =>
    have hle := h.level
    have hup : c.level - 1 < c.level := Nat.sub_one_lt hlevel
    exact {
      config_eq := h.config_eq
      level := by dsimp only; omega
      lastSample := rfl
      lastDownshift := by simpa [Sample.down, countClear] using h.lastDownshift
      lastUpshift := by simp [Sample.up, Sample.now, hup]
      congested := Nat.zero_le _
      clear := Nat.zero_le _ }

/-- The wait after the earning back of a clear sample. -/
theorem countClear_upshiftWait (now : ℤ) :
    (c.countClear now).upshiftWait = c.upshiftWait ∨ (c.countClear now).upshiftWait = c.config.upshiftWait := by
  unfold countClear
  split_ifs
  · exact .inr rfl
  · exact .inl rfl

theorem Inv.waitBounded (h : Inv config c log) (hb : WaitBounded config c) (hsoon : c.tooSoon call.now = false)
    (hs : Stepped c call.judged call.now c') (hm : c.Meets log call) : WaitBounded config c' := by
  have hu : c.config.upshiftWait = config.upshiftWait := by rw [h.config_eq]
  have hmax : c.config.maxUpshiftWait = config.maxUpshiftWait := by rw [h.config_eq]
  have hclear : WaitBounded config (c.countClear call.now) := by
    unfold WaitBounded
    rcases countClear_upshiftWait (c := c) call.now with heq | heq
    · rw [heq]
      exact hb
    · rw [heq, hu]
      exact ⟨min_le_left _ _, le_max_left _ _⟩
  cases hs with
  | hold hv | congested hv => exact hb
  | clear hv | up hv hlevel hwait => exact hclear
  | down hv hdue =>
    unfold WaitBounded at hb ⊢
    dsimp only [failUpshift]
    by_cases hin : within c.lastUpshift call.now c.config.failedUpshiftWindow = true
    · have hgrows := (hm ⟨hsoon, hv, hdue, hin⟩).2
      omega
    · rw [if_neg hin]
      exact hb

/-- **What a sample does, given the older ones.** -/
theorem Inv.obeys (h : Inv config c log) (hsoon : c.tooSoon call.now = false)
    (hs : Stepped c call.judged call.now c') (hm : c.Meets log call) : Obeys config log ⟨call, c, c'⟩ := by
  have hwindow : c.config.failedUpshiftWindow = config.failedUpshiftWindow := by rw [h.config_eq]
  have hmax : c.config.maxUpshiftWait = config.maxUpshiftWait := by rw [h.config_eq]
  have hu : c.config.upshiftWait = config.upshiftWait := by rw [h.config_eq]
  have hin : ∀ u, log.find? Sample.up = some u → call.now - u.now < config.failedUpshiftWindow →
      within c.lastUpshift call.now c.config.failedUpshiftWindow = true := by
    intro u hfind hlt
    rw [h.lastUpshift, hfind, hwindow]
    simpa [within] using hlt
  have hout : ∀ now, within c.lastUpshift now c.config.failedUpshiftWindow = true →
      ∃ u, log.find? Sample.up = some u ∧ now - u.now < config.failedUpshiftWindow := by
    intro now hw
    rw [h.lastUpshift, hwindow] at hw
    cases hfind : log.find? Sample.up with
    | none => simp [hfind, within] at hw
    | some u => exact ⟨u, rfl, by simpa [hfind, within] using hw⟩
  have hclear : (c.countClear call.now).upshiftWait = c.upshiftWait ∨
      (c.countClear call.now).upshiftWait = config.upshiftWait := by
    rw [← hu]
    exact countClear_upshiftWait call.now
  cases hs with
  | hold hv =>
    exact {
      down := fun hd => by simp [Sample.down] at hd
      settled := fun hd => by simp [Sample.down] at hd
      streak := fun hd => by simp [Sample.down] at hd
      up := fun hd => by simp [Sample.up] at hd
      doubles := fun hd => by simp [Sample.down] at hd
      once := fun hd => by simp [Sample.down] at hd
      keeps := fun _ => .inl rfl }
  | congested hv =>
    exact {
      down := fun hd => by simp [Sample.down, countCongested] at hd
      settled := fun hd => by simp [Sample.down, countCongested] at hd
      streak := fun hd => by simp [Sample.down, countCongested] at hd
      up := fun hd => by simp [Sample.up, countCongested] at hd
      doubles := fun hd => by simp [Sample.down, countCongested] at hd
      once := fun hd => by simp [Sample.down, countCongested] at hd
      keeps := fun _ => .inl rfl }
  | clear hv =>
    exact {
      down := fun hd => by simp [Sample.down, countClear] at hd
      settled := fun hd => by simp [Sample.down, countClear] at hd
      streak := fun hd => by simp [Sample.down, countClear] at hd
      up := fun hd => by simp [Sample.up, countClear] at hd
      doubles := fun hd => by simp [Sample.down, countClear] at hd
      once := fun hd => by simp [Sample.down, countClear] at hd
      keeps := fun _ => hclear.imp id fun heq => ⟨hv, heq⟩ }
  | up hv hlevel hwait =>
    have hnotDown : ¬ c.level < c.level - 1 := by omega
    have hk : (c.countClear call.now).clearStreak ≤ (log.takeWhile Sample.staysClear).length + 1 :=
      (mod_le _ _).trans (succ_le_succ h.clear)
    have hinterval : c.config.sampleInterval = config.sampleInterval := by rw [h.config_eq]
    exact {
      down := fun hd => by simp [Sample.down, hnotDown] at hd
      settled := fun hd => by simp [Sample.down, hnotDown] at hd
      streak := fun hd => by simp [Sample.down, hnotDown] at hd
      up := fun _ => ⟨Nat.sub_add_cancel (one_le_iff_ne_zero.mpr hlevel), hv, _, hk, hinterval ▸ hwait⟩
      doubles := fun hd => by simp [Sample.down, hnotDown] at hd
      once := fun hd => by simp [Sample.down, hnotDown] at hd
      keeps := fun _ => hclear.imp id fun heq => ⟨hv, heq⟩ }
  | down hv hdue =>
    have hdue' := hdue
    simp only [downshiftDue, and_eq_true, not_eq_true'] at hdue
    obtain ⟨⟨-, hsettled⟩, hstreak⟩ := hdue
    exact {
      down := fun _ => ⟨le_max_left _ _, le_max_right _ _⟩
      settled := by
        intro _ d hfind
        have hlast : c.countCongested.lastDownshift = some d.now := by
          rw [show c.countCongested.lastDownshift = c.lastDownshift from rfl, h.lastDownshift, hfind]
          rfl
        have hsettle : c.countCongested.config.settleTime = config.settleTime := by
          rw [show c.countCongested.config = c.config from rfl, h.config_eq]
        rw [hlast, hsettle] at hsettled
        have hnot : ¬ call.now - d.now < config.settleTime := of_decide_eq_false hsettled
        exact not_lt.mp hnot
      streak := by
        intro _
        rcases hv with hv | hv
        · right
          have hsamples : c.countCongested.config.downshiftSamples = max config.downshiftSamples 1 := by
            rw [show c.countCongested.config = c.config from rfl, h.config_eq]
          have hcount : c.countCongested.congestedStreak ≤ (log.takeWhile Sample.staysCongested).length + 1 :=
            (mod_le _ _).trans (succ_le_succ h.congested)
          rw [hv] at hstreak
          simp only [beq_self_eq_true, Bool.true_and, decide_eq_false_iff_not] at hstreak
          exact ⟨hv, by omega⟩
        · exact .inl hv
      up := fun hup => by simp [Sample.up] at hup
      doubles := by
        intro _ u hfind hlt _
        dsimp only [failUpshift]
        rw [if_pos (hin u hfind hlt), hmax]
      once := by
        intro _ hfailed
        dsimp only [failUpshift]
        by_cases hw : within c.lastUpshift call.now c.config.failedUpshiftWindow = true
        · obtain ⟨hcap, hgrows⟩ := hm ⟨hsoon, hv, hdue', hw⟩
          have hwait := hcap hfailed
          omega
        · rw [if_neg hw]
      keeps := by
        intro hnot
        left
        have hw : ¬ within c.lastUpshift call.now c.config.failedUpshiftWindow = true := by
          intro hw
          obtain ⟨u, hfind, hlt⟩ := hout call.now hw
          refine hnot ⟨?_, u, hfind, hlt⟩
          simp [Sample.down]
        dsimp only [failUpshift]
        rw [if_neg hw] }

end

theorem run_concat (calls : List Call) (call : Call) :
    run config initial (calls ++ [call]) = next (run config initial calls) call := by
  rw [run, foldl_append]
  rfl

/-- Every call of the run keeps the wait from being doubled twice. -/
def AllMeet (config : Config) (initial : Option (Fin tierCount)) (calls : List Call) : Prop :=
  ∀ front call rest, calls = front ++ call :: rest → (run config initial front).1.Meets (run config initial front).2
    call

instance (c : QualityController) (call : Call) : Decidable (c.Fails call) :=
  inferInstanceAs (Decidable (_ ∧ _ ∧ _ ∧ _))

instance (c : QualityController) (log : List Sample) (call : Call) : Decidable (c.Meets log call) :=
  inferInstanceAs (Decidable (_ → _))

theorem allMeet_iff {config : Config} {initial : Option (Fin tierCount)} {calls : List Call} :
    AllMeet config initial calls ↔ ∀ i : Fin calls.length,
      (run config initial (calls.take i)).1.Meets (run config initial (calls.take i)).2 calls[i] := by
  constructor
  · intro h i
    exact h (calls.take i) calls[i] (calls.drop (i + 1)) (by simp)
  · intro h front call rest hcalls
    subst hcalls
    have hi := h ⟨front.length, by simp⟩
    simpa using hi

/-- A call every half second from the given half second on, all judged alike. -/
def everyHalfSecond (verdict : Verdict) (start count : ℕ) : List Call :=
  (List.range count).map fun i => ⟨500000000 * (start + i : ℕ), verdict, 0⟩

/-- What a run is to show: its samples obey the hysteresis, the level and the
wait stay in their ranges, and a call between samples changes nothing. -/
structure Hysteresis (config : Config) (r : QualityController × List Sample) : Prop where
  obeys : ∀ e before, e :: before <:+ r.2 → Obeys config before e
  level : r.1.level < tierCount
  wait : WaitBounded config r.1
  soon : ∀ e before, r.2 = e :: before → ∀ j now, now - e.now < config.sampleInterval → r.1.update j now = (r.1, none)

theorem run_inv (calls : List Call) (hm : AllMeet config initial calls) :
    Inv config (run config initial calls).1 (run config initial calls).2 ∧
      WaitBounded config (run config initial calls).1 ∧
      ∀ e before, e :: before <:+ (run config initial calls).2 → Obeys config before e := by
  induction calls using List.reverseRecOn with
  | nil =>
    refine ⟨Inv.create config initial, ⟨min_le_left _ _, le_max_left _ _⟩, fun e before h => ?_⟩
    exact absurd (suffix_nil.mp h) (by simp)
  | append_singleton calls call ih =>
    have hfront : AllMeet config initial calls := fun front c rest hcalls =>
      hm front c (rest ++ [call]) (by rw [hcalls]; simp)
    obtain ⟨hinv, hbound, hobeys⟩ := ih hfront
    rw [run_concat]
    unfold next
    dsimp only
    by_cases hsoon : (run config initial calls).1.tooSoon call.now = true
    · rw [if_pos hsoon, update_tooSoon hsoon]
      exact ⟨hinv, hbound, hobeys⟩
    · rw [if_neg hsoon]
      have hsample := not_eq_true _ ▸ hsoon
      have hmeets := hm calls call [] rfl
      have hs := update_stepped call.judged hsample hinv.level
      refine ⟨hinv.sample hs, hinv.waitBounded hbound hsample hs hmeets, fun e before h => ?_⟩
      rcases suffix_cons_iff.mp h with heq | h
      · cases heq
        exact hinv.obeys hsample hs hmeets
      · exact hobeys e before h

/-- **The hysteresis, over every run that fails no step up twice.** -/
theorem run_hysteresis (config : Config) (initial : Option (Fin tierCount)) (calls : List Call)
    (hm : AllMeet config initial calls) : Hysteresis config (run config initial calls) := by
  obtain ⟨hinv, hbound, hobeys⟩ := run_inv config initial calls hm
  have hlevel := hinv.level
  refine ⟨hobeys, Nat.lt_of_le_of_lt hlevel (by decide), hbound, fun e before hlog j now hlt => update_tooSoon ?_⟩
  have hinterval : (run config initial calls).1.config.sampleInterval = config.sampleInterval := by rw [hinv.config_eq]
  rw [tooSoon, hinv.lastSample, hlog, hinterval]
  simpa [within] using hlt

/-- A step up that succeeds, and one that fails. -/
theorem run_hysteresis_undone :
    Hysteresis {} (run {} (some 1) (everyHalfSecond .clear 1 10 ++ everyHalfSecond .severe 11 1)) :=
  run_hysteresis {} (some 1) _ (allMeet_iff.mpr (by decide +kernel))

/-- A step up at ten clear samples, undone at once, and one step further down
when the ladder has settled. -/
def twoStepsDown : List Call := everyHalfSecond .clear 1 10 ++ everyHalfSecond .severe 11 5

/-- The last sample changes the wait for a step up that has failed before. -/
def lengthensAgain : List Sample → Bool
  | [] => false
  | e :: before => e.down && failedAlready before && e.after.upshiftWait != e.before.upshiftWait

/-- The second step down doubles the wait of ten seconds to twenty. -/
theorem doubled_twice : ¬ ∀ (config : Config) (initial : Option (Fin tierCount)) (calls : List Call),
    (calls.map Call.now).Pairwise (· ≤ ·) → Hysteresis config (run config initial calls) := by
  intro h
  have hrun := h {} (some 1) twoStepsDown (by decide +kernel)
  have htwice : lengthensAgain (run {} (some 1) twoStepsDown).2 = true := by decide +kernel
  cases hlog : (run {} (some 1) twoStepsDown).2 with
  | nil => simp [hlog, lengthensAgain] at htwice
  | cons e before =>
    rw [hlog] at htwice
    simp only [lengthensAgain, and_eq_true, bne_iff_ne, ne_eq] at htwice
    obtain ⟨⟨hdown, hfailed⟩, hwait⟩ := htwice
    exact hwait ((hrun.obeys e before (hlog ▸ suffix_rfl)).once hdown hfailed)

end QualityController
end Quality
end Server
end Farland
