/-
# Every paste is answered once

A paste of the desktop moves between the queue, the one the client was asked
for, and those that wait for a download; `desktop_.write` answers it.
`held` counts the serials answered and in hand, and every function of the
bridge keeps that count: whoever takes a paste out of one place answers it or
puts it into another (`step_held`).

Key theorems: `run_held`, **`run_answers`**.
-/
import Farland.Clipboard.Bridge

namespace Farland
namespace Clipboard
namespace ClipboardBridge

open Channels.Cliprdr ClipboardServer

/-- The paste that an entry answers. -/
def answeredBy : Entry → Option ℕ
  | .write transfer _ => some transfer.serial
  | _ => none

variable (b : ClipboardBridge)

/-- The serials of `desktop_.write`, in order. -/
def answered : List ℕ := b.log.filterMap answeredBy

def serials (transfers : List Transfer) : Multiset ℕ := transfers.map Transfer.serial

/-- The pastes still to be answered. -/
def pending : Multiset ℕ :=
  serials (b.active.map (·.transfer)).toList + serials b.transfers + serials b.waitingForFiles

/-- The serials answered and in hand. -/
def held : Multiset ℕ := b.answered + b.pending

/-- The serials that the events of the desktop request. -/
def requestedBy (events : List DesktopEvent) : List ℕ :=
  events.filterMap fun
    | .transferRequested serial _ => some serial
    | _ => none

def requests : Call → List ℕ
  | .service events => requestedBy events
  | _ => []

variable (calls : List (World × Call))

def requested : List ℕ := calls.flatMap fun c => requests c.2

/-- The destructor. -/
def destroy : ClipboardBridge := b.failTransfers

/-! ### What moves a paste -/

variable {b : ClipboardBridge}

@[simp] theorem serials_nil : serials [] = 0 := rfl

theorem serials_append (l l' : List Transfer) : serials (l ++ l') = serials l + serials l' := by
  simp [serials]

theorem serials_cons (t : Transfer) (l : List Transfer) : serials (t :: l) = {t.serial} + serials l := by
  simp [serials]

theorem answered_append (l : List Transfer) (f : Transfer → Option (Bytes × Option ℕ)) :
    ((l.map fun t => Entry.write t (f t)).filterMap answeredBy : Multiset ℕ) = serials l := by
  induction l with
  | nil => rfl
  | cons t l ih =>
    rw [serials_cons, ← ih]
    rfl

/-- An entry that answers nothing. -/
theorem held_note {e : Entry} (h : answeredBy e = none) : held (b.note e) = held b := by
  have hsame : answered (b.note e) = answered b := by simp [answered, note, h]
  rw [held, hsame]
  rfl

theorem held_write (t : Transfer) (data : Option (Bytes × Option ℕ)) : held (b.write t data) = held b + {t.serial} := by
  have happend : answered (b.write t data) = answered b ++ [t.serial] := by
    simp [answered, write, note, answeredBy]
  have hmore : (answered (b.write t data) : Multiset ℕ) = answered b + {t.serial} := by
    rw [happend, ← Multiset.coe_add]
    rfl
  have hsame : pending (b.write t data) = pending b := rfl
  rw [held, hmore, hsame, held]
  abel

variable (w : World) (d : Download)

/-- Whoever waited for the download is answered. -/
theorem held_finishDownload (ok : Bool) : held (b.finishDownload w d ok) = held b := by
  cases ok with
  | false =>
    have hmore : (answered (b.finishDownload w d false) : Multiset ℕ) = answered b + serials b.waitingForFiles := by
      rw [← answered_append b.waitingForFiles fun _ => none]
      simp [answered, finishDownload, refuseAll]
    have hless : pending (b.finishDownload w d false) =
        serials (b.active.map (·.transfer)).toList + serials b.transfers + 0 := rfl
    rw [held, hmore, hless, held, pending]
    abel
  | true =>
    have hmore : (answered (b.finishDownload w d true) : Multiset ℕ) = answered b + serials b.waitingForFiles := by
      rw [← answered_append b.waitingForFiles fun t => some (stagedUris w (stagedItems d) t.mimeType, d.asked)]
      simp [answered, finishDownload]
    have hless : pending (b.finishDownload w d true) =
        serials (b.active.map (·.transfer)).toList + serials b.transfers + 0 := rfl
    rw [held, hmore, hless, held, pending]
    abel

theorem held_requestRange (size : ℕ) : held (b.requestRange w d size) = held b := by
  unfold requestRange
  dsimp only
  split_ifs
  · exact held_finishDownload w d false
  · rfl

theorem held_advanceLoop (w : World) : ∀ (files : List FileDescriptor) (b : ClipboardBridge) (d : Download),
    held (advanceLoop w files b d) = held b
  | [], b, d => held_finishDownload w d true
  | file :: rest, b, d => by
    unfold advanceLoop
    by_cases hdir : isDirectory file = true
    · rw [if_pos hdir]
      split_ifs
      · exact held_advanceLoop w rest b _
      · exact held_finishDownload w d false
    · rw [if_neg hdir]
      by_cases hcreate : d.fileOpen = false ∧ w.createFile d.index = false
      · rw [if_pos hcreate]
        exact held_finishDownload w d false
      · rw [if_neg hcreate]
        dsimp only
        generalize hb : (if d.fileOpen = false ∧ declaresSize file = true then
          b.note (.learned true d.sizes file.size) else b) = b'
        generalize (if d.fileOpen = true then d else openFile d file) = d'
        have hnoted : held b' = held b := by
          subst hb
          split_ifs
          · exact held_note rfl
          · rfl
        split
        · exact hnoted
        · split_ifs
          · exact (held_advanceLoop w rest b' _).trans hnoted
          · exact (held_requestRange w _ _).trans hnoted

theorem held_advanceDownload : held (b.advanceDownload w) = held b := by
  unfold advanceDownload
  split
  · rfl
  · split_ifs
    · rfl
    · exact held_advanceLoop w _ _ _

theorem held_checkLimit (size : ℕ) : held (b.checkLimit w d size) = held b := by
  unfold checkLimit
  split_ifs
  · exact held_finishDownload w d false
  · exact held_advanceDownload w

theorem held_takeRange (data : Bytes) : held (b.takeRange w d data) = held b := by
  unfold takeRange
  split
  · exact held_finishDownload w d false
  · split_ifs
    · exact held_finishDownload w d false
    · exact (held_checkLimit w _ _).trans (held_note rfl)

theorem held_onFileContentsReceived (id : ℕ) (data : Option Bytes) :
    held (b.onFileContentsReceived w id data) = held b := by
  unfold onFileContentsReceived
  split
  · rfl
  · rename_i d hd
    by_cases hstream : d.stream ≠ some id
    · rw [if_pos hstream]
    · rw [if_neg hstream]
      dsimp only
      split
      · exact held_finishDownload w _ false
      · split_ifs
        · exact (held_checkLimit w _ _).trans (held_note rfl)
        · exact held_takeRange w _ _

/-- A file list starts a download that its paste waits for, or the paste is refused. -/
theorem held_startDownload (active : ActiveTransfer) (fileList : Bytes) :
    held (b.startDownload w active fileList) = held b + {active.transfer.serial} := by
  rcases startDownload_cases b w active fileList with hrefused | ⟨files, components, path, -, hbegun⟩
  · rw [hrefused]
    exact held_write _ _
  · rw [hbegun]
    unfold beginDownload
    refine (held_advanceDownload w).trans ?_
    have hwaits : ∀ b' : ClipboardBridge, b'.log = (b.note (.listed active.asked b.remoteEpoch)).log →
        b'.active = b.active → b'.transfers = b.transfers →
        b'.waitingForFiles = b.waitingForFiles ++ [active.transfer] → held b' = held b + {active.transfer.serial} := by
      intro b' hlog hactive htransfers hwaiting
      have hanswered : answered b' = answered b := by
        rw [answered, hlog]
        simp [answered, note, answeredBy]
      rw [held, held, pending, pending, hanswered, hactive, htransfers, hwaiting, serials_append, serials_cons,
        serials_nil]
      abel
    exact hwaits _ rfl rfl rfl rfl

theorem held_onDataReceived (data : Option Bytes) : held (b.onDataReceived w data) = held b := by
  unfold onDataReceived
  cases hactive : b.active with
  | none => rfl
  | some active =>
    have htaken : held { b with active := none } + {active.transfer.serial} = held b := by
      have hone : serials (b.active.map (·.transfer)).toList = {active.transfer.serial} := by
        rw [hactive]
        rfl
      have hgone : pending { b with active := none } = 0 + serials b.transfers + serials b.waitingForFiles := rfl
      rw [held, held, hgone, pending, hone]
      change (answered b : Multiset ℕ) + _ + _ = _
      abel
    cases data with
    | none => exact (held_write _ _).trans htaken
    | some data =>
      have hnoted : held (note { b with active := none } (.taken active.asked b.dataRequests[w.answers]?)) =
          held { b with active := none } := held_note rfl
      rw [← hnoted] at htaken
      dsimp only
      split_ifs
      · exact (held_startDownload w _ _).trans htaken
      · exact (held_write _ _).trans htaken

/-- The loop takes its pastes from the front of the queue. -/
theorem held_pumpLoop (w : World) : ∀ (l : List Transfer) (b : ClipboardBridge),
    held (pumpLoop w l b) = held { b with transfers := l }
  | [], b => rfl
  | t :: rest, b => by
    have hfront : held { b with transfers := t :: rest } = held { b with transfers := rest } + {t.serial} := by
      have hmore : pending { b with transfers := t :: rest } = pending { b with transfers := rest } + {t.serial} := by
        unfold pending
        dsimp only
        rw [serials_cons]
        abel
      rw [held, hmore, held]
      change (answered b : Multiset ℕ) + _ = (answered b : Multiset ℕ) + _ + _
      abel
    have hwrite : ∀ data, held (pumpLoop w rest (b.write t data)) = held { b with transfers := t :: rest } := by
      intro data
      rw [held_pumpLoop w rest, hfront]
      exact held_write (b := { b with transfers := rest }) t data
    unfold pumpLoop
    by_cases hactive : b.active.isSome = true
    · rw [if_pos hactive]
    · rw [if_neg hactive]
      have hidle : b.active = none := by simpa using hactive
      by_cases hready : b.server.ready = false
      · rw [if_pos hready]
        exact hwrite none
      · rw [if_neg hready]
        split
        · exact hwrite none
        · split
          · exact hwrite _
          · split
            · rename_i d hd
              rw [held_pumpLoop w rest, hfront]
              have hjoined : ∀ b' : ClipboardBridge, b'.log = (b.note (.joined t d.epoch)).log →
                  b'.active = b.active → b'.transfers = rest → b'.waitingForFiles = b.waitingForFiles ++ [t] →
                  held b' = held { b with transfers := rest } + {t.serial} := by
                intro b' hlog hactive htransfers hwaiting
                have hanswered : answered b' = answered b := by
                  rw [answered, hlog]
                  simp [answered, note, answeredBy]
                have hserials : serials (b.waitingForFiles ++ [t]) = serials b.waitingForFiles + {t.serial} := by
                  rw [serials_append]
                  rfl
                rw [held, held, pending, pending, hanswered, hactive, htransfers, hwaiting, hserials]
                change _ = (answered b : Multiset ℕ) + _ + _
                abel
              exact hjoined _ rfl rfl rfl rfl
            · dsimp only
              split_ifs
              · rw [hfront, held, held, pending, pending]
                change (answered b : Multiset ℕ) + ({t.serial} + _ + _) =
                  (answered b : Multiset ℕ) + (serials (b.active.map (·.transfer)).toList + _ + _) + _
                rw [hidle]
                change _ = (answered b : Multiset ℕ) + (0 + _ + _) + _
                abel
              · rfl

theorem held_pumpTransfers : held (b.pumpTransfers w) = held b := held_pumpLoop w b.transfers b

/-! ### Calls -/

theorem Aside.held {b' : ClipboardBridge} (h : Aside b b') : b'.held = b.held := by
  rw [ClipboardBridge.held, ClipboardBridge.held, answered, h.log, pending, h.active, h.transfers, h.waitingForFiles]
  rfl

theorem held_onRemoteFormats (list : List Format) : held (b.onRemoteFormats w list) = held b := by
  unfold onRemoteFormats
  dsimp only
  split_ifs
  · split <;> rfl
  · rfl
  · exact held_note rfl

theorem held_handleEvent (e : ServerEvent) : held (b.handleEvent w e) = held b := by
  cases e with
  | ready _ | formatListAnswered _ | unlocked id => rfl
  | remoteFormatList formats => exact held_onRemoteFormats w formats
  | dataRequested id formatId => exact (b.onDataRequested_aside w id formatId).held
  | fileContentsRequested id request => exact (b.onFileContentsRequested_aside w id request).held
  | dataReceived data => exact held_onDataReceived w data
  | fileContentsReceived id data => exact held_onFileContentsReceived w id data
  | locked id => exact (b.onLocked_aside id).held

theorem held_drain (w : World) : ∀ (n : ℕ) (b : ClipboardBridge), held (drain w n b) = held b
  | 0, _ => rfl
  | n + 1, b => by
    unfold drain
    split
    · rfl
    · exact (held_drain w n _).trans (held_handleEvent w _)

theorem held_process : held (b.process w) = held b := by
  have hadvanced : held (((b.drainAll w).pumpTransfers w).advanceDownload w) = held b :=
    (held_advanceDownload w).trans ((held_pumpTransfers w).trans (held_drain w _ b))
  exact hadvanced

theorem pending_failTransfers : pending b.failTransfers = 0 := rfl

theorem held_failTransfers : held b.failTransfers = held b := by
  have hanswered : (answered b.failTransfers : Multiset ℕ) = answered b + pending b := by
    rw [pending, ← serials_append, ← serials_append, ← answered_append _ fun _ => none]
    simp [answered, failTransfers, refuseAll]
  rw [held, hanswered, pending_failTransfers, held, add_zero]

theorem held_handleDesktop (e : DesktopEvent) : held (handleDesktop w b e) = held b + requestedBy [e] := by
  cases e with
  | ownerChanged mimes =>
    unfold handleDesktop
    dsimp only
    split_ifs
    · exact ((announceDesktop_aside _ w mimes).held).trans (add_zero _).symm
    · exact (add_zero _).symm
  | transferRequested serial mimeType =>
    have hmore : pending { b with transfers := b.transfers ++ [⟨serial, mimeType, b.remoteEpoch⟩] } =
        pending b + {serial} := by
      unfold pending
      dsimp only
      rw [serials_append]
      change _ + (_ + {serial}) + _ = _
      abel
    unfold handleDesktop
    dsimp only
    rw [held, hmore]
    change (answered b : Multiset ℕ) + _ = held b + {serial}
    rw [held]
    abel
  | readFinished id data => exact ((b.onReadFinished_aside w id data).held).trans (add_zero _).symm

theorem requestedBy_cons (e : DesktopEvent) (events : List DesktopEvent) :
    requestedBy (e :: events) = requestedBy [e] ++ requestedBy events := by
  cases e <;> rfl

theorem held_foldl (w : World) : ∀ (events : List DesktopEvent) (b : ClipboardBridge),
    held (events.foldl (handleDesktop w) b) = held b + requestedBy events
  | [], b => (add_zero _).symm
  | e :: events, b => by
    rw [List.foldl_cons, held_foldl w events, held_handleDesktop, requestedBy_cons e events, ← Multiset.coe_add]
    abel

/-- **A call answers pastes in hand, and takes in hand what it requests.** -/
theorem step_held (c : Call) : held (b.step w c) = held b + requests c := by
  cases c with
  | start mimes => exact (add_zero _).symm
  | receive chunk =>
    change held (b.receive w chunk) = held b + 0
    rw [add_zero]
    unfold receive
    dsimp only
    split_ifs
    · rfl
    · exact held_failTransfers
    · exact held_process w
  | service events =>
    change held (b.service w events) = held b + requestedBy events
    rw [← held_foldl w events b]
    unfold service
    dsimp only
    split_ifs
    · exact held_failTransfers
    · exact held_process w

/-! ### Runs -/

theorem run_append (more : List (World × Call)) : b.run (calls ++ more) = (b.run calls).run more :=
  List.foldl_append

/-- **The serials answered and in hand are those requested.** -/
theorem run_held (b : ClipboardBridge) : held (b.run calls) = held b + requested calls := by
  induction calls generalizing b with
  | nil => exact (add_zero _).symm
  | cons c calls ih =>
    have hone : requested (c :: calls) = requests c.2 ++ requested calls := rfl
    rw [hone, ← Multiset.coe_add, ← add_assoc, ← step_held c.1 c.2]
    exact ih (b.step c.1 c.2)

/-! ### After a failure -/

/-- Failed, and nothing in hand. -/
def Settled (b : ClipboardBridge) : Prop := b.failed = true ∧ pending b = 0

theorem failed_handleDesktop (b : ClipboardBridge) (e : DesktopEvent) : (handleDesktop w b e).failed = b.failed := by
  cases e with
  | ownerChanged mimes =>
    unfold handleDesktop
    dsimp only
    split_ifs
    · exact (announceDesktop_aside _ w mimes).failed
    · rfl
  | transferRequested serial mimeType => rfl
  | readFinished id data => exact (b.onReadFinished_aside w id data).failed

theorem failed_foldl (w : World) : ∀ (events : List DesktopEvent) (b : ClipboardBridge),
    (events.foldl (handleDesktop w) b).failed = b.failed
  | [], _ => rfl
  | e :: events, b => (failed_foldl w events _).trans (failed_handleDesktop w b e)

/-- A service after the failure answers whoever is left. -/
theorem settled_service (h : b.failed = true) (w : World) (events : List DesktopEvent) :
    Settled (b.step w (.service events)) := by
  have hfailed := (failed_foldl w events b).trans h
  have hstep : b.step w (.service events) = (events.foldl (handleDesktop w) b).failTransfers := by
    change b.service w events = _
    unfold service
    dsimp only
    rw [if_pos hfailed]
  rw [hstep]
  exact ⟨hfailed, pending_failTransfers⟩

theorem Settled.step (h : Settled b) (w : World) (c : Call) : Settled (b.step w c) := by
  cases c with
  | start mimes => exact h
  | receive chunk =>
    have hsame : b.receive w chunk = b := by
      unfold receive
      rw [if_pos h.1]
    change Settled (b.receive w chunk)
    rwa [hsame]
  | service events => exact settled_service h.1 w events

theorem Settled.run (h : Settled b) (calls : List (World × Call)) : Settled (b.run calls) := by
  induction calls generalizing b with
  | nil => exact h
  | cons c calls ih => exact ih (h.step c.1 c.2)

/-! ### Answers -/

/-- No serial is answered twice, or without being requested. -/
structure AnsweredOnce (b : ClipboardBridge) (asked : List ℕ) : Prop where
  once : b.answered.Nodup
  requested : b.answered ⊆ asked

theorem answeredOnce_of_held {asked : List ℕ} (h : held b = asked) (hdistinct : asked.Nodup) :
    AnsweredOnce b asked := by
  have hle : (answered b : Multiset ℕ) ≤ asked := h ▸ Multiset.le_add_right _ _
  exact ⟨Multiset.coe_nodup.mp (Multiset.nodup_of_le hle (Multiset.coe_nodup.mpr hdistinct)),
    fun s hs => Multiset.mem_of_le hle hs⟩

/-- With nothing in hand every serial was answered. -/
theorem answered_of_pending {asked : List ℕ} (h : held b = asked) (hnone : pending b = 0) : asked ⊆ b.answered := by
  intro s hs
  have hmem : s ∈ held b := h ▸ hs
  rwa [held, hnone, add_zero] at hmem

theorem held_make (o : ClipboardOptions) : held (make o) = 0 := rfl

/-- **Every paste is answered at most once, and none is outstanding once the
bridge has failed and been serviced, or is gone.** -/
theorem run_answers (o : ClipboardOptions) (calls : List (World × Call)) (h : (requested calls).Nodup) :
    AnsweredOnce ((make o).run calls) (requested calls) ∧
      AnsweredOnce ((make o).run calls).destroy (requested calls) ∧
      requested calls ⊆ ((make o).run calls).destroy.answered ∧
      ∀ front w events rest, calls = front ++ (w, .service events) :: rest → ((make o).run front).failed = true →
        requested calls ⊆ ((make o).run calls).answered := by
  have hheld : held ((make o).run calls) = requested calls := by
    rw [run_held, held_make, zero_add]
  have hgone : held ((make o).run calls).destroy = requested calls := held_failTransfers.trans hheld
  refine ⟨answeredOnce_of_held hheld h, answeredOnce_of_held hgone h, answered_of_pending hgone rfl, ?_⟩
  intro front w events rest hcalls hfailed
  have hsettled : Settled ((make o).run calls) := by
    rw [hcalls, run_append]
    exact (settled_service hfailed w events).run rest
  exact answered_of_pending hheld hsettled.2

/-- Two pastes before the client is ready, and one after a message that fails the bridge. -/
def threePastes : List (World × Call) :=
  List.map (fun call : Call => ({}, call))
    [.start none, .service [.transferRequested 1 uriListMime, .transferRequested 2 htmlMime],
      .receive (.broken ⟨.invalidLength, "svc chunk", 0⟩), .service [.transferRequested 3 pngMime]]

/-- All three are answered. -/
theorem threePastes_answered :
    AnsweredOnce ((make {}).run threePastes) [1, 2, 3] ∧ [1, 2, 3] ⊆ ((make {}).run threePastes).answered := by
  have hdistinct : (requested threePastes).Nodup := by decide
  obtain ⟨honce, -, -, hfailed⟩ := run_answers {} threePastes hdistinct
  exact ⟨honce, hfailed (threePastes.take 3) {} [.transferRequested 3 pngMime] [] rfl (by decide +kernel)⟩

end ClipboardBridge
end Clipboard
end Farland
