/-
# What the desktop pastes

Every paste on the desktop is answered with what the client gave in answer to
requests of the bridge. `Transfer.epoch` counts the client's format lists up to
the paste, the number beside the data of a `.write` those up to the request
that the data answers; a paste that gets data from a smaller count got an older
clipboard.

The bridge compares counts only where a paste finds files already staged.
`Current` is what three other places would have to see to: data is taken for a
request of the format list that it belongs to, not for one that went out after
the answer was given up (`lateAnswer`); a file list is taken for the format
list it was asked for under; and a paste that joins a running download is not
newer than it (`older_files`). As long as that is so, no paste gets an older
clipboard (**`run_pasted`**).
-/
import Farland.Clipboard.Bridge

namespace Farland
namespace Clipboard

open Channels.Cliprdr ClipboardServer List ClipboardBridge

/-- The client answers a request of the format list of the one that its data is
taken for, a paste that joins a download is not newer than it, and a file list
belongs to the format list it is taken for. -/
def Current : Entry → Prop
  | .taken asked epoch => epoch = some asked
  | .joined transfer epoch => transfer.epoch ≤ epoch
  | .listed asked epoch => asked = epoch
  | _ => True

instance : DecidablePred Current
  | .taken asked epoch => inferInstanceAs (Decidable (epoch = some asked))
  | .joined transfer epoch => inferInstanceAs (Decidable (transfer.epoch ≤ epoch))
  | .listed asked epoch => inferInstanceAs (Decidable (asked = epoch))
  | .write _ _ | .setSelection _ | .learned _ _ _ | .appended _ => inferInstanceAs (Decidable True)

/-- The data that a paste was answered with came for a request that was sent
under no older format list. -/
def Timely : Entry → Prop
  | .write transfer (some (_, asked)) => ∃ epoch ∈ asked, transfer.epoch ≤ epoch
  | _ => True

/-! ### The invariant -/

/-- The pastes that wait and what is staged. -/
structure Queued (b : ClipboardBridge) : Prop where
  transfers : ∀ t ∈ b.transfers, t.epoch ≤ b.remoteEpoch
  active : ∀ a, b.active = some a → a.transfer.epoch ≤ a.asked
  staged : ∀ s, b.staged = some s → s.asked = some s.epoch
  timely : ∀ e ∈ b.log, Timely e

/-- A download and the pastes that wait for it; no other file list is asked
for. -/
structure Carries (b : ClipboardBridge) (d : Download) : Prop where
  asked : d.asked = some d.epoch
  waiting : ∀ t ∈ b.waitingForFiles, t.epoch ≤ d.epoch
  alone : ∀ a, b.active = some a → kindOf a.transfer.mimeType ≠ some .files

/-- What holds of the bridge while all is current. -/
structure Pasted (b : ClipboardBridge) : Prop extends Queued b where
  idle : b.download = none → b.waitingForFiles = []
  download : ∀ d, b.download = some d → Carries b d

/-- The invariant of runs. -/
def Pasting (b : ClipboardBridge) : Prop := (∀ e ∈ b.log, Current e) → Pasted b

/-- The same while a download is in hand. -/
def Carrying (b : ClipboardBridge) (d : Download) : Prop := (∀ e ∈ b.log, Current e) → Queued b ∧ Carries b d

variable {b : ClipboardBridge} {d : Download}

/-- Changes that leave the pastes alone. -/
structure Untouched (b b' : ClipboardBridge) (l : List Entry) : Prop where
  transfers : b'.transfers = b.transfers
  active : b'.active = b.active
  waiting : b'.waitingForFiles = b.waitingForFiles
  staged : b'.staged = b.staged
  epoch : b.remoteEpoch ≤ b'.remoteEpoch
  log : b'.log = b.log ++ l

variable {b' : ClipboardBridge}

theorem Queued.untouched (h : Queued b) {l : List Entry} (hu : Untouched b b' l) (hl : ∀ e ∈ l, Timely e) :
    Queued b' where
  transfers := fun t ht => (h.transfers t (hu.transfers ▸ ht)).trans hu.epoch
  active := by simpa only [hu.active] using h.active
  staged := by simpa only [hu.staged] using h.staged
  timely := fun e he => by
    rw [hu.log, mem_append] at he
    exact he.elim (h.timely e) (hl e)

theorem Carries.untouched (h : Carries b d) {l : List Entry} (hu : Untouched b b' l) : Carries b' d where
  asked := h.asked
  waiting := by simpa only [hu.waiting] using h.waiting
  alone := by simpa only [hu.active] using h.alone

/-- A change that leaves the pastes and the download alone. -/
theorem Pasting.untouched (h : Pasting b) {l : List Entry} (hu : Untouched b b' l) (hd : b'.download = b.download)
    (hl : ∀ e ∈ l, Timely e) : Pasting b' := by
  intro hc
  obtain ⟨queued, idle, download⟩ := h fun e he => hc e (by simp [hu.log, he])
  refine ⟨queued.untouched hu hl, ?_, fun d hd' => (download d (hd ▸ hd')).untouched hu⟩
  rw [hd, hu.waiting]
  exact idle

/-! ### Downloads -/

/-- Whoever waited has the files, or nothing. -/
theorem Pasting.finish (w : World) (ok : Bool) (h : Carrying b d) :
    Pasting (b.finishDownload w d ok) := by
  intro hc
  have hlog : ∀ e ∈ b.log, e ∈ (b.finishDownload w d ok).log := by
    unfold finishDownload refuseAll
    cases ok <;> simp +contextual
  obtain ⟨queued, carries⟩ := h fun e he => hc e (hlog e he)
  have timely : ∀ e ∈ (b.finishDownload w d ok).log, Timely e := by
    intro e he
    cases ok
    · have he' : e ∈ b.log ∨ e ∈ b.waitingForFiles.map fun t => .write t none := by
        simpa [finishDownload, refuseAll] using he
      rcases he' with he' | he'
      · exact queued.timely e he'
      · obtain ⟨t, -, rfl⟩ := mem_map.mp he'
        trivial
    · have he' : e ∈ b.log ∨ e ∈ b.waitingForFiles.map fun t =>
          .write t (some (stagedUris w (stagedItems d) t.mimeType, d.asked)) := by
        simpa [finishDownload] using he
      rcases he' with he' | he'
      · exact queued.timely e he'
      · obtain ⟨t, ht, rfl⟩ := mem_map.mp he'
        exact ⟨d.epoch, carries.asked, carries.waiting t ht⟩
  cases ok
  · exact ⟨⟨queued.transfers, queued.active, queued.staged, timely⟩, fun _ => rfl, nofun⟩
  · refine ⟨⟨queued.transfers, queued.active, ?_, timely⟩, fun _ => rfl, nofun⟩
    rintro _ ⟨⟩
    exact carries.asked

/-- The download goes on. -/
theorem Pasting.going (h : Carrying b d) (s : ClipboardServer) :
    Pasting { b with server := s, download := some d } := by
  intro hc
  obtain ⟨queued, carries⟩ := h hc
  refine ⟨⟨queued.transfers, queued.active, queued.staged, queued.timely⟩, nofun, ?_⟩
  rintro _ ⟨⟩
  exact ⟨carries.asked, carries.waiting, carries.alone⟩

/-- The pastes do not depend on the other fields of a download. -/
theorem Carrying.congr (h : Carrying b d) {d' : Download} (he : d'.epoch = d.epoch) (ha : d'.asked = d.asked) :
    Carrying b d' := by
  intro hc
  obtain ⟨queued, carries⟩ := h hc
  refine ⟨queued, by rw [he, ha, carries.asked], ?_, carries.alone⟩
  rw [he]
  exact carries.waiting

/-- A history entry about the sizes of files. -/
theorem Carrying.note (h : Carrying b d) {e : Entry} (he : Timely e) : Carrying (b.note e) d := by
  intro hc
  have hu : Untouched b (b.note e) [e] := ⟨rfl, rfl, rfl, rfl, le_rfl, rfl⟩
  obtain ⟨queued, carries⟩ := h fun e' he' => hc e' (by simp [ClipboardBridge.note, he'])
  exact ⟨queued.untouched hu (by simpa using he), carries.untouched hu⟩

theorem Pasting.requestRange (h : Carrying b d) (w : World) (size : ℕ) :
    Pasting (b.requestRange w d size) := by
  unfold ClipboardBridge.requestRange
  dsimp only
  split_ifs
  · exact Pasting.finish w false h
  · refine Pasting.going ?_ _
    exact h.congr rfl rfl

theorem Pasting.requestSize (h : Carrying b d) (w : World) : Pasting (b.requestSize w d) := by
  refine Pasting.going ?_ _
  exact h.congr rfl rfl

theorem Pasting.advanceLoop (w : World) : ∀ (files : List FileDescriptor) {b : ClipboardBridge} {d : Download},
    Carrying b d → Pasting (ClipboardBridge.advanceLoop w files b d)
  | [], b, d, h => Pasting.finish w true h
  | file :: rest, b, d, h => by
    unfold ClipboardBridge.advanceLoop
    by_cases hdir : ClipboardBridge.isDirectory file = true
    · rw [if_pos hdir]
      split_ifs
      · exact Pasting.advanceLoop w rest (h.congr rfl rfl)
      · exact Pasting.finish w false h
    · rw [if_neg hdir]
      by_cases hcreate : d.fileOpen = false ∧ w.createFile d.index = false
      · rw [if_pos hcreate]
        exact Pasting.finish w false h
      · rw [if_neg hcreate]
        dsimp only
        generalize hb : (if d.fileOpen = false ∧ ClipboardBridge.declaresSize file = true then
          b.note (.learned true d.sizes file.size) else b) = b'
        generalize hd' : (if d.fileOpen = true then d else ClipboardBridge.openFile d file) = d'
        have opened : Carrying b' d' := by
          have same : d'.epoch = d.epoch ∧ d'.asked = d.asked := by
            subst hd'
            split_ifs <;> exact ⟨rfl, rfl⟩
          subst hb
          split_ifs
          · exact (h.congr same.1 same.2).note trivial
          · exact h.congr same.1 same.2
        split
        · exact Pasting.requestSize opened w
        · split_ifs
          · exact Pasting.advanceLoop w rest (opened.congr rfl rfl)
          · exact Pasting.requestRange opened w _

theorem Pasting.advanceDownload (h : Pasting b) (w : World) : Pasting (b.advanceDownload w) := by
  unfold ClipboardBridge.advanceDownload
  rcases hd : b.download with _ | d
  · exact h
  · dsimp only
    split_ifs
    · exact h
    · exact Pasting.advanceLoop w _ fun hc => ⟨(h hc).toQueued, (h hc).download d hd⟩

theorem Pasting.checkLimit (h : Carrying b d) (w : World) (size : ℕ) :
    Pasting (b.checkLimit w d size) := by
  unfold ClipboardBridge.checkLimit
  split_ifs
  · exact Pasting.finish w false h
  · exact Pasting.advanceDownload (Pasting.going h b.server) w

theorem Pasting.takeSize (h : Carrying b d) (w : World) (data : Bytes) : Pasting (b.takeSize w d data) := by
  refine Pasting.checkLimit (Carrying.note ?_ ?_) w _
  · exact h.congr rfl rfl
  · trivial

theorem Pasting.takeRange (h : Carrying b d) (w : World) (data : Bytes) : Pasting (b.takeRange w d data) := by
  unfold ClipboardBridge.takeRange
  split
  · exact Pasting.finish w false h
  · split_ifs
    · exact Pasting.finish w false h
    · refine Pasting.checkLimit (Carrying.note ?_ ?_) w _
      · exact h.congr rfl rfl
      · trivial

theorem Pasting.onFileContentsReceived (h : Pasting b) (w : World) (id : ℕ) (data : Option Bytes) :
    Pasting (b.onFileContentsReceived w id data) := by
  unfold ClipboardBridge.onFileContentsReceived
  rcases hd : b.download with _ | d
  · exact h
  · have carried : Carrying b { d with stream := none } :=
      Carrying.congr (fun hc => ⟨(h hc).toQueued, (h hc).download d hd⟩) rfl rfl
    rcases data with _ | data
    · dsimp only
      split_ifs
      · exact h
      · exact Pasting.finish w false carried
    · dsimp only
      split_ifs
      · exact h
      · exact Pasting.takeSize carried w data
      · exact Pasting.takeRange carried w data

/-! ### Pastes -/

/-- A paste is answered, with data that is no older. -/
theorem Pasting.write (h : Pasting b) (t : Transfer) (data : Option (Bytes × Option ℕ))
    (ht : (∀ e ∈ b.log, Current e) → Timely (.write t data)) : Pasting (b.write t data) := by
  intro hc
  have hc' : ∀ e ∈ b.log, Current e := fun e he => hc e (by simp [ClipboardBridge.write, ClipboardBridge.note, he])
  refine Pasting.untouched h (l := [.write t data]) ⟨rfl, rfl, rfl, rfl, le_rfl, rfl⟩ rfl ?_ hc
  simpa using ht hc'

/-- A file list starts a download for the paste that asked for it. -/
theorem Pasting.beginDownload (w : World) (active : ActiveTransfer) (files : List FileDescriptor)
    (components : List (List Text)) (path : Text)
    (h : (∀ e ∈ b.log, Current e) → Pasted b ∧ b.active = none ∧ b.download = none ∧
      active.transfer.epoch ≤ active.asked ∧ active.answered = some active.asked) :
    Pasting (b.beginDownload w active files components path) := by
  unfold ClipboardBridge.beginDownload
  refine Pasting.advanceDownload ?_ w
  intro hc
  obtain ⟨pasted, hactive, hnone, hasked, hanswered⟩ := h fun e he => hc e (by simp [ClipboardBridge.note, he])
  have listed : active.asked = b.remoteEpoch :=
    hc (.listed active.asked b.remoteEpoch) (by simp [ClipboardBridge.note])
  refine ⟨⟨pasted.transfers, pasted.active, pasted.staged, ?_⟩, nofun, ?_⟩
  · intro e he
    simp only [ClipboardBridge.note, mem_append, mem_singleton] at he
    rcases he with he | rfl
    · exact pasted.timely e he
    · trivial
  · rintro _ ⟨⟩
    refine ⟨hanswered.trans (congrArg some listed), ?_, by simp [hactive, ClipboardBridge.note]⟩
    simpa [pasted.idle hnone, ClipboardBridge.note, ← listed] using hasked

theorem Pasting.onDataReceived (h : Pasting b) (w : World) (data : Option Bytes) :
    Pasting (b.onDataReceived w data) := by
  unfold ClipboardBridge.onDataReceived
  rcases ha : b.active with _ | active
  · exact h
  · have taken : Pasting { b with active := none } := by
      intro hc
      obtain ⟨⟨transfers, -, staged, timely⟩, idle, download⟩ := h hc
      exact ⟨⟨transfers, nofun, staged, timely⟩, idle, fun d hd => ⟨(download d hd).asked, (download d hd).waiting,
        nofun⟩⟩
    have asked : (∀ e ∈ b.log, Current e) → active.transfer.epoch ≤ active.asked := fun hc => (h hc).active active ha
    rcases data with _ | data
    · exact Pasting.write taken _ _ fun _ => trivial
    · have noted : Pasting (ClipboardBridge.note { b with active := none }
          (.taken active.asked b.dataRequests[w.answers]?)) :=
        taken.untouched (l := [_]) ⟨rfl, rfl, rfl, rfl, le_rfl, rfl⟩ rfl (by simp [Timely])
      -- The data answers a request of the format list it was asked for under.
      have current : (∀ e ∈ (ClipboardBridge.note { b with active := none }
          (.taken active.asked b.dataRequests[w.answers]?)).log, Current e) →
          active.transfer.epoch ≤ active.asked ∧ b.dataRequests[w.answers]? = some active.asked := fun hc =>
        ⟨asked fun e he => hc e (by simp [ClipboardBridge.note, he]),
          hc (.taken active.asked b.dataRequests[w.answers]?) (by simp [ClipboardBridge.note])⟩
      dsimp only
      split_ifs with hfiles
      · rcases ClipboardBridge.startDownload_cases (ClipboardBridge.note { b with active := none }
            (.taken active.asked b.dataRequests[w.answers]?)) w
            { active with answered := b.dataRequests[w.answers]? } data with
          h' | ⟨files, components, path, -, h'⟩
        · rw [h']
          exact Pasting.write noted _ _ fun _ => trivial
        · rw [h']
          refine Pasting.beginDownload w _ files components path fun hc => ⟨noted hc, rfl, ?_, current hc⟩
          -- No other download runs while a file list is asked for.
          by_contra hd
          obtain ⟨d, hd⟩ := Option.ne_none_iff_exists'.mp hd
          have carries := (h fun e he => hc e (by simp [ClipboardBridge.note, he])).download d hd
          exact carries.alone active ha hfiles
      · refine Pasting.write noted _ _ fun hc => ?_
        rcases ClipboardBridge.forDesktop w active data with _ | converted
        · trivial
        · exact ⟨active.asked, (current hc).2, (current hc).1⟩

/-- The queue, once some of it was taken. -/
theorem Pasting.setTransfers (h : Pasting b) (l : List Transfer)
    (hl : (∀ e ∈ b.log, Current e) → ∀ t ∈ l, t.epoch ≤ b.remoteEpoch) : Pasting { b with transfers := l } := by
  intro hc
  obtain ⟨⟨-, active, staged, timely⟩, idle, download⟩ := h hc
  refine ⟨⟨hl hc, active, staged, timely⟩, idle, fun d hd => ?_⟩
  exact ⟨(download d hd).asked, (download d hd).waiting, (download d hd).alone⟩

/-- A paste that joins the running download. -/
theorem Pasting.join (h : Pasting b) (hd : b.download = some d) (t : Transfer) :
    Pasting { b.note (.joined t d.epoch) with waitingForFiles := b.waitingForFiles ++ [t] } := by
  intro hc
  have joined : t.epoch ≤ d.epoch := hc (.joined t d.epoch) (by simp [note])
  obtain ⟨queued, -, download⟩ := h fun e he => hc e (by simp [note, he])
  have hu : Untouched b (b.note (.joined t d.epoch)) [.joined t d.epoch] := ⟨rfl, rfl, rfl, rfl, le_rfl, rfl⟩
  have noted := queued.untouched hu (by simp [Timely])
  refine ⟨⟨noted.transfers, noted.active, noted.staged, noted.timely⟩, ?_, ?_⟩
  · simp [note, hd]
  · intro d' hd'
    obtain rfl := Option.some.inj (hd.symm.trans hd')
    refine ⟨(download d hd).asked, fun t' ht' => ?_, (download d hd).alone⟩
    rcases mem_append.mp ht' with ht' | ht'
    · exact (download d hd).waiting t' ht'
    · rw [mem_singleton.mp ht']
      exact joined

/-- The client is asked for the data of a paste. -/
theorem Pasting.activate (h : Pasting b) (s : ClipboardServer) (t : Transfer) (format : ℕ) (rest : List Transfer)
    (hts : (∀ e ∈ b.log, Current e) → ∀ t' ∈ t :: rest, t'.epoch ≤ b.remoteEpoch)
    (hfiles : kindOf t.mimeType = some .files → b.download = none) :
    Pasting { b with
      server := s, active := some { transfer := t, formatId := format, asked := b.remoteEpoch }, transfers := rest
      dataRequests := b.dataRequests ++ [b.remoteEpoch] } := by
  intro hc
  obtain ⟨⟨-, -, staged, timely⟩, idle, download⟩ := h hc
  refine ⟨⟨fun t' ht' => hts hc t' (by simp [ht']), ?_, staged, timely⟩, idle, fun d hd => ?_⟩
  · rintro _ ⟨⟩
    exact hts hc t (by simp)
  · refine ⟨(download d hd).asked, (download d hd).waiting, ?_⟩
    rintro _ ⟨⟩ hk
    have hd' : b.download = some d := hd
    rw [hfiles hk] at hd'
    cases hd'

theorem Pasting.pumpLoop (w : World) : ∀ (transfers : List Transfer) {b : ClipboardBridge}, Pasting b →
    ((∀ e ∈ b.log, Current e) → ∀ t ∈ transfers, t.epoch ≤ b.remoteEpoch) →
    Pasting (ClipboardBridge.pumpLoop w transfers b)
  | [], b, h, _ => h.setTransfers [] fun _ => by simp
  | t :: rest, b, h, hts => by
    have hrest : ∀ {l : List Entry}, (∀ e ∈ b.log ++ l, Current e) → ∀ t ∈ rest, t.epoch ≤ b.remoteEpoch :=
      fun hc t' ht' => hts (fun e he => hc e (by simp [he])) t' (by simp [ht'])
    have refused := Pasting.pumpLoop w rest (h.write t none fun _ => trivial) hrest
    unfold ClipboardBridge.pumpLoop
    by_cases hactive : b.active.isSome = true
    · rw [if_pos hactive]
      exact h.setTransfers _ hts
    · rw [if_neg hactive]
      by_cases hready : b.server.ready = false
      · rw [if_pos hready]
        exact refused
      · rw [if_neg hready]
        split
        · exact refused
        · split
          · rename_i staged hstaged
            -- Files staged under the format list of now.
            refine Pasting.pumpLoop w rest (h.write t _ fun hc => ?_) hrest
            split_ifs at hstaged
            obtain ⟨hs, he⟩ := Option.filter_eq_some_iff.mp hstaged
            have hasked := (h hc).staged staged hs
            have hepoch := hts hc t (by simp)
            simp only [beq_iff_eq] at he
            exact ⟨staged.epoch, hasked, by omega⟩
          · split
            · rename_i d hd
              split_ifs at hd
              exact Pasting.pumpLoop w rest (h.join hd t) hrest
            · rename_i hd
              dsimp only
              split_ifs
              · refine h.activate _ t _ rest hts fun hk => ?_
                rwa [if_pos hk] at hd
              · exact h.setTransfers _ hts

/-! ### Runs -/

theorem Pasting.of_aside (h : Pasting b) (ha : ClipboardBridge.Aside b b') : Pasting b' :=
  h.untouched (l := []) ⟨ha.transfers, ha.active, ha.waitingForFiles, ha.staged, ha.remoteEpoch.ge, by simp [ha.log]⟩
    ha.download (by simp)

theorem Pasting.onRemoteFormats (h : Pasting b) (w : World) (list : List Format) :
    Pasting (b.onRemoteFormats w list) := by
  unfold ClipboardBridge.onRemoteFormats
  dsimp only
  split_ifs
  · split
    · exact h.untouched (l := []) ⟨rfl, rfl, rfl, rfl, Nat.le_succ _, by simp⟩ rfl (by simp)
    · exact h.untouched (l := []) ⟨rfl, rfl, rfl, rfl, Nat.le_succ _, by simp [ClipboardBridge.announceDesktop]⟩ rfl
        (by simp)
  · exact h.untouched (l := []) ⟨rfl, rfl, rfl, rfl, Nat.le_succ _, by simp⟩ rfl (by simp)
  · exact h.untouched (l := [_]) ⟨rfl, rfl, rfl, rfl, Nat.le_succ _, rfl⟩ rfl (by simp [Timely])

theorem Pasting.handleEvent (h : Pasting b) (w : World) (e : ServerEvent) : Pasting (b.handleEvent w e) := by
  cases e with
  | ready _ | formatListAnswered _ => exact h
  | remoteFormatList formats => exact h.onRemoteFormats w formats
  | dataRequested id formatId => exact h.of_aside (b.onDataRequested_aside w id formatId)
  | fileContentsRequested id request => exact h.of_aside (b.onFileContentsRequested_aside w id request)
  | dataReceived data => exact h.onDataReceived w data
  | fileContentsReceived id data => exact h.onFileContentsReceived w id data
  | locked id => exact h.of_aside (b.onLocked_aside id)
  | unlocked id =>
    exact h.untouched (l := []) ⟨rfl, rfl, rfl, rfl, le_rfl, by simp [ClipboardBridge.handleEvent]⟩ rfl (by simp)

/-- The bridge with another server. -/
theorem Pasting.setServer (h : Pasting b) (s : ClipboardServer) : Pasting { b with server := s } :=
  h.untouched (l := []) ⟨rfl, rfl, rfl, rfl, le_rfl, by simp⟩ rfl (by simp)

theorem Pasting.drain (w : World) : ∀ (n : ℕ) {b : ClipboardBridge}, Pasting b → Pasting (ClipboardBridge.drain w n b)
  | 0, _, h => h
  | n + 1, b, h => by
    unfold ClipboardBridge.drain
    split
    · exact h
    · exact Pasting.drain w n ((h.setServer _).handleEvent w _)

theorem Pasting.process (h : Pasting b) (w : World) : Pasting (b.process w) := by
  have drained : Pasting (b.drainAll w) := Pasting.drain w _ h
  have pumped := drained.pumpLoop w _ fun hc => (drained hc).transfers
  exact (pumped.advanceDownload w).setServer _

theorem Pasting.failTransfers (h : Pasting b) : Pasting b.failTransfers := by
  intro hc
  obtain ⟨queued, -, -⟩ := h fun e he =>
    hc e (by simp [ClipboardBridge.failTransfers, ClipboardBridge.refuseAll, he])
  refine ⟨⟨nofun, nofun, queued.staged, fun e he => ?_⟩, fun _ => rfl, nofun⟩
  rcases mem_append.mp he with he | he
  · exact queued.timely e he
  · obtain ⟨t, -, rfl⟩ := mem_map.mp he
    trivial

theorem Pasting.handleDesktop (h : Pasting b) (w : World) (e : ClipboardBridge.DesktopEvent) :
    Pasting (ClipboardBridge.handleDesktop w b e) := by
  cases e with
  | ownerChanged mimes =>
    have changed : Pasting { b with desktopMimes := some mimes } :=
      h.untouched (l := []) ⟨rfl, rfl, rfl, rfl, le_rfl, by simp⟩ rfl (by simp)
    unfold ClipboardBridge.handleDesktop
    dsimp only
    split_ifs
    · exact changed.of_aside (ClipboardBridge.announceDesktop_aside _ w mimes)
    · exact changed
  | transferRequested serial mimeType =>
    refine h.setTransfers _ fun hc t ht => ?_
    rcases mem_append.mp ht with ht | ht
    · exact (h hc).transfers t ht
    · rw [mem_singleton.mp ht]
  | readFinished id data => exact h.of_aside (b.onReadFinished_aside w id data)

theorem Pasting.service (h : Pasting b) (w : World) (events : List ClipboardBridge.DesktopEvent) :
    Pasting (b.service w events) := by
  have handled : Pasting (events.foldl (ClipboardBridge.handleDesktop w) b) := by
    induction events generalizing b with
    | nil => exact h
    | cons e events ih => exact ih (h.handleDesktop w e)
  unfold ClipboardBridge.service
  dsimp only
  split_ifs
  · exact handled.failTransfers
  · exact (handled.setServer _).process w

theorem Pasting.receive (h : Pasting b) (w : World) (chunk : ClipboardBridge.Chunk) : Pasting (b.receive w chunk) := by
  unfold ClipboardBridge.receive
  dsimp only
  split_ifs
  · exact h
  · refine Pasting.failTransfers ?_
    exact h.untouched (l := []) ⟨rfl, rfl, rfl, rfl, le_rfl, by simp⟩ rfl (by simp)
  · exact (h.setServer _).process w

theorem Pasting.step (h : Pasting b) (w : World) (c : ClipboardBridge.Call) : Pasting (b.step w c) := by
  cases c with
  | start mimes =>
    exact h.untouched (l := []) ⟨rfl, rfl, rfl, rfl, le_rfl, by simp [ClipboardBridge.step]⟩ rfl (by simp)
  | receive chunk => exact h.receive w chunk
  | service events => exact h.service w events

theorem Pasting.run : ∀ (calls : List (World × ClipboardBridge.Call)) {b : ClipboardBridge}, Pasting b →
    Pasting (b.run calls)
  | [], _, h => h
  | c :: calls, _, h => Pasting.run calls (h.step c.1 c.2)

theorem pasting_make (o : ClipboardOptions) : Pasting (make o) :=
  fun _ => ⟨⟨nofun, nofun, nofun, nofun⟩, fun _ => rfl, nofun⟩

/-- **No paste gets an older clipboard**, in every run in which the client's
data is for the format list it is taken for, no paste joins the download of an
older file list, and every file list comes before the next format list. -/
theorem run_pasted (o : ClipboardOptions) (calls : List (World × ClipboardBridge.Call))
    (h : ∀ e ∈ ((make o).run calls).log, Current e) (t : Transfer) (data : Bytes) (asked : Option ℕ)
    (hw : .write t (some (data, asked)) ∈ ((make o).run calls).log) : ∃ epoch ∈ asked, t.epoch ≤ epoch :=
  ((pasting_make o).run calls h).timely _ hw

/-! ### A paste while files are fetched -/

/-- A list of one file with a declared byte. -/
def oneFile : Bytes :=
  Writer.u32le 1 ++ Writer.u32le fdFileSize ++ Writer.zeros 64 ++ Writer.u32le 1 ++ [0x61, 0] ++ Writer.zeros 518

/-- The desktop pastes the client's file, and again after the messages
`between` while the byte of the first paste is still to come. -/
def pasteTwice (between : List ClipboardBridge.Call) : List (World × ClipboardBridge.Call) :=
  List.map (fun call : ClipboardBridge.Call => ({ createDirectory := some }, call))
    ([.start none, .receive (.message (.ok (.capabilities (some 0x3E)))),
      .receive (.message (.ok (.formatList [⟨0xC000, fileGroupDescriptorW⟩]))),
      .service [.transferRequested 1 uriListMime],
      .receive (.message (.ok (.formatDataResponse true oneFile)))] ++ between ++
      [.service [.transferRequested 2 uriListMime],
        .receive (.message (.ok (.fileContentsResponse true 1 [7])))])

/-- Both pastes under one format list get its file. -/
theorem pasteTwice_current :
    (∀ e ∈ ((make { stagingRoot := text "/run" }).run (pasteTwice [])).log, Current e) ∧
    .write ⟨2, uriListMime, 1⟩ (some (text "/run/a\r\n", some 1)) ∈
      ((make { stagingRoot := text "/run" }).run (pasteTwice [])).log ∧
    ∃ epoch ∈ some 1, (⟨2, uriListMime, 1⟩ : Transfer).epoch ≤ epoch := by
  have current : ∀ e ∈ ((make { stagingRoot := text "/run" }).run (pasteTwice [])).log, Current e := by
    decide +kernel
  have written : .write ⟨2, uriListMime, 1⟩ (some (text "/run/a\r\n", some 1)) ∈
      ((make { stagingRoot := text "/run" }).run (pasteTwice [])).log := by decide +kernel
  exact ⟨current, written, run_pasted { stagingRoot := text "/run" } (pasteTwice []) current _ _ _ written⟩

/-- The client copies again before the second paste, which joins the download
of the first and gets the older file. -/
theorem older_files :
    ¬ ∀ (t : Transfer) (data : Bytes) (asked : Option ℕ), .write t (some (data, asked)) ∈
      ((make { stagingRoot := text "/run" }).run
        (pasteTwice [.receive (.message (.ok (.formatList [⟨0xC000, fileGroupDescriptorW⟩])))])).log →
      ∃ epoch ∈ asked, t.epoch ≤ epoch := by
  have written : .write ⟨2, uriListMime, 2⟩ (some (text "/run/a\r\n", some 1)) ∈
      ((make { stagingRoot := text "/run" }).run
        (pasteTwice [.receive (.message (.ok (.formatList [⟨0xC000, fileGroupDescriptorW⟩])))])).log := by
    decide +kernel
  intro h
  obtain ⟨epoch, hepoch, hle⟩ := h _ _ _ written
  obtain rfl : 1 = epoch := Option.some.inj hepoch
  exact absurd hle (by decide)

/-! ### An answer that comes late -/

/-- The client copies text and is asked for it, copies again, and is asked again
when it has not answered for twice the time it had; then the first answer comes. -/
def lateAnswer : List (World × ClipboardBridge.Call) :=
  [({}, .start none), ({}, .receive (.message (.ok (.formatList [⟨cfUnicodeText, []⟩])))),
    ({}, .service [.transferRequested 1 (text "text/plain")]),
    ({ now := 30000 }, .receive (.message (.ok (.formatList [⟨cfUnicodeText, []⟩])))),
    ({ now := 30000 }, .service []), ({ now := 60000 }, .service [.transferRequested 2 (text "text/plain")]),
    ({ now := 60001, answers := 0 }, .receive (.message (.ok (.formatDataResponse true [0x61]))))]

-- The second paste gets the text of before.
example : .write ⟨2, text "text/plain", 2⟩ (some ([0x61], some 1)) ∈ ((make {}).run lateAnswer).log := by
  decide +kernel

end Clipboard
end Farland
