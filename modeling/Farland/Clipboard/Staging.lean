/-
# The staging limit

What a download appends to its staging directory, held against
`max_staged_bytes`. The size of a file is checked when it was asked for, with
what is staged already, in 64 bits; a size the list declares is only checked
once the first range of the file is there.

`Fits` is what a size must satisfy when it becomes known: the 64-bit sum with
the files before it does not wrap to something that passes, and a declared
file may not go over the limit with its first range. As long as every size
fits, no download goes over the limit (`run_staged`).

Key theorem: `beyond_limit`.
-/
import Farland.Clipboard.Bridge

namespace Farland
namespace Clipboard

open Channels.Cliprdr ClipboardServer LittleEndian List ClipboardBridge Inv Parse

/-! ### Sizes -/

/-- What the size of a file must satisfy when it becomes known. -/
def Fits (o : ClipboardOptions) : Entry → Prop
  | .learned declared before size =>
    (before.sum + size ≤ o.maxStagedBytes ∨ o.maxStagedBytes < (before.sum + size) % 2 ^ 64) ∧
      (declared = true → before.sum + min o.rangeSize size ≤ o.maxStagedBytes)
  | _ => True

instance (o : ClipboardOptions) : DecidablePred (Fits o)
  | .learned declared _ _ => inferInstanceAs (Decidable (_ ∧ (declared = true → _)))
  | .write _ _ | .setSelection _ | .taken _ _ | .joined _ _ | .listed _ _ | .appended _ => inferInstanceAs (Decidable True)

/-- The file at hand, of `size` bytes, behind `before` bytes: all of it stays
within the limit, or its first range does and the check ends the download. -/
def Guarded (o : ClipboardOptions) (before offset size : ℕ) : Prop :=
  before + size ≤ o.maxStagedBytes ∨
    offset = 0 ∧ before + min o.rangeSize size ≤ o.maxStagedBytes ∧ o.maxStagedBytes < (before + size) % 2 ^ 64

/-! ### The invariant -/

/-- What holds of a download: its counters agree with what it wrote, and the
file at hand is guarded. -/
structure Download.Sound (o : ClipboardOptions) (d : Download) : Prop where
  files : ∀ file ∈ d.files, file.size < 2 ^ 64
  total : d.total = d.directory.written % 2 ^ 64
  written : d.directory.written = d.sizes.sum + if d.fileOpen then d.offset else 0
  within : d.directory.written ≤ o.maxStagedBytes
  size : d.fileOpen = true → ∀ size, d.size = some size →
    d.offset ≤ size ∧ size < 2 ^ 64 ∧ Guarded o d.sizes.sum d.offset size
  unknown : d.fileOpen = true → d.size = none → d.offset = 0
  asked : d.stream.isSome = true → d.fileOpen = true ∧ (d.sizeRequest = true → d.size = none)

/-- The range that the download is waiting for has at most `n` bytes. -/
def Download.Awaits (o : ClipboardOptions) (d : Download) (n : ℕ) : Prop :=
  d.sizeRequest = false → ∃ size, d.size = some size ∧ n ≤ min o.rangeSize (size - d.offset)

/-- The outstanding request and the queued answer are those of the download. -/
structure Matches (o : ClipboardOptions) (s : ClipboardServer) (d : Download) : Prop where
  outgoing : ∀ out, s.outgoing = some out → out.fileContents = true → d.stream = some out.request.streamId →
    d.Awaits o out.request.requested
  events : ∀ id data, .fileContentsReceived id (some data) ∈ s.answers → d.stream = some id → d.Awaits o data.length

/-- At most one answer is queued, and then no request is outstanding. -/
def Single (s : ClipboardServer) : Prop := s.answers = [] ∨ s.outgoing = none ∧ ∃ e, s.answers = [e]

/-- What holds of the bridge while all sizes fit. -/
structure Staging (o : ClipboardOptions) (b : ClipboardBridge) : Prop where
  appended : ∀ n, .appended n ∈ b.log → n ≤ o.maxStagedBytes
  download : ∀ d, b.download = some d → d.Sound o ∧ Matches o b.server d

/-- The invariant of runs. -/
structure Inv (o : ClipboardOptions) (b : ClipboardBridge) : Prop where
  options : b.options = o
  single : Single b.server
  staging : (∀ e ∈ b.log, Fits o e) → Staging o b

variable {o : ClipboardOptions} {b : ClipboardBridge} {d : Download}

/-- A server that does nothing for the download. -/
theorem Matches.quiet {s s' : ClipboardServer} (h : Matches o s d) (hq : Quiet s s') : Matches o s' d where
  outgoing := by simpa only [hq.outgoing] using h.outgoing
  events := by simpa only [hq.answers] using h.events

theorem Single.quiet {s s' : ClipboardServer} (h : Single s) (hq : Quiet s s') : Single s' := by
  simpa only [Single, hq.outgoing, hq.answers] using h

variable {b' : ClipboardBridge}

/-- A change that touches neither the download nor what it waits for. -/
theorem Inv.aside (h : Inv o b) (ho : b'.options = b.options) (hd : b'.download = b.download)
    (hs : Quiet b.server b'.server) {l : List Entry} (hl : b'.log = b.log ++ l) (ha : ∀ n, Entry.appended n ∉ l) :
    Inv o b' where
  options := ho.trans h.options
  single := h.single.quiet hs
  staging := fun hf => by
    obtain ⟨appended, download⟩ := h.staging fun e he => hf e (by simp [hl, he])
    refine ⟨fun n hn => appended n ?_, fun d' hd' => ?_⟩
    · simpa [hl, ha n] using hn
    · obtain ⟨sound, matched⟩ := download d' (hd ▸ hd')
      exact ⟨sound, matched.quiet hs⟩

/-- The download is over. -/
theorem Inv.finish (h : Inv o b) (w : World) (d : Download) (ok : Bool) : Inv o (b.finishDownload w d ok) := by
  have hs : Quiet b.server (b.finishDownload w d ok).server := by
    unfold finishDownload
    rcases d.clipDataId with _ | id <;> cases ok
    · exact .refl _
    · exact .refl _
    · exact unlock_quiet _ _
    · exact unlock_quiet _ _
  have hl : ∃ l, (b.finishDownload w d ok).log = b.log ++ l ∧ ∀ n, Entry.appended n ∉ l := by
    unfold finishDownload refuseAll
    cases ok
    · exact ⟨_, rfl, by simp⟩
    · exact ⟨_, rfl, by simp⟩
  obtain ⟨l, hl, ha⟩ := hl
  refine ⟨?_, h.single.quiet hs, fun hf => ?_⟩
  · rw [← h.options]
    unfold finishDownload
    cases ok <;> rfl
  · obtain ⟨appended, -⟩ := h.staging fun e he => hf e (by simp [hl, he])
    refine ⟨fun n hn => appended n (by simpa [hl, ha n] using hn), fun d' hd' => ?_⟩
    unfold finishDownload at hd'
    cases ok <;> cases hd'

/-! ### Asking for files -/

/-- A request for the file at hand. -/
theorem Inv.ask (h : Inv o b) (hans : b.server.answers = []) (hd : (∀ e ∈ b.log, Fits o e) → d.Sound o)
    (hopen : d.fileOpen = true) (sizeRequest : Bool) (flags position size : ℕ) (now : Time)
    (hsize : sizeRequest = true → d.size = none)
    (hrange : sizeRequest = false →
      flags = fileContentsRange ∧ ∃ s, d.size = some s ∧ size ≤ min o.rangeSize (s - d.offset)) :
    Inv o { b with
      server := (b.server.requestFileContents d.index flags position size d.clipDataId now).1
      download := some { d with
        stream := (b.server.requestFileContents d.index flags position size d.clipDataId now).2
        sizeRequest := sizeRequest } } := by
  have calm := requestFileContents_calm b.server d.index flags position size d.clipDataId now
  refine ⟨h.options, .inl (calm.answers.trans hans), fun hf => ?_⟩
  obtain ⟨appended, -⟩ := h.staging hf
  obtain ⟨files, total, written, within, known, unknown, -⟩ := hd hf
  refine ⟨appended, ?_⟩
  rintro _ ⟨⟩
  refine ⟨⟨files, total, written, within, known, unknown, fun _ => ⟨hopen, hsize⟩⟩, ⟨?_, ?_⟩⟩
  · intro out ho _ hs hr
    obtain ⟨hflags, s, hds, hle⟩ := hrange hr
    rcases requestFileContents_cases b.server d.index flags position size d.clipDataId now with
      h | ⟨s', o', h, hout, -, -, hreq⟩
    · rw [h] at hs
      cases hs
    · rw [h] at ho
      obtain rfl := Option.some.inj (hout.symm.trans ho)
      exact ⟨s, hds, hreq hflags ▸ hle⟩
  · intro id data hm
    rw [calm.answers, hans] at hm
    cases hm

theorem Inv.requestSize (h : Inv o b) (hans : b.server.answers = []) (w : World)
    (hd : (∀ e ∈ b.log, Fits o e) → d.Sound o) (hopen : d.fileOpen = true) (hsize : d.size = none) :
    Inv o (b.requestSize w d) :=
  h.ask hans hd hopen true _ _ _ w.now (fun _ => hsize) nofun

theorem Inv.requestRange (h : Inv o b) (hans : b.server.answers = []) (w : World)
    (hd : (∀ e ∈ b.log, Fits o e) → d.Sound o) (hopen : d.fileOpen = true) {size : ℕ} (hsize : d.size = some size) :
    Inv o (b.requestRange w d size) := by
  unfold ClipboardBridge.requestRange
  dsimp only
  split_ifs
  · exact h.finish w d false
  · refine h.ask hans hd hopen false _ _ _ w.now nofun fun _ => ⟨rfl, size, hsize, ?_⟩
    rw [h.options]

/-- The file at hand is opened; a declared size must fit. -/
theorem Download.Sound.openFile (h : d.Sound o) (hclosed : d.fileOpen = false) (hstream : d.stream = none)
    {file : FileDescriptor} (hfile : file.size < 2 ^ 64)
    (hfits : ClipboardBridge.declaresSize file = true → Fits o (.learned true d.sizes file.size)) :
    (ClipboardBridge.openFile d file).Sound o where
  files := h.files
  total := h.total
  written := by simpa [ClipboardBridge.openFile, hclosed] using h.written
  within := h.within
  size := by
    intro _ size hs
    simp only [ClipboardBridge.openFile] at hs ⊢
    split_ifs at hs with hdecl
    obtain rfl := Option.some.inj hs
    obtain ⟨hsum, hfirst⟩ := hfits hdecl
    refine ⟨Nat.zero_le _, hfile, ?_⟩
    rcases hsum with hsum | hsum
    · exact .inl hsum
    · exact .inr ⟨rfl, hfirst rfl, hsum⟩
  unknown := fun _ _ => rfl
  asked := by simp [ClipboardBridge.openFile, hstream]

/-- The file at hand is through. -/
theorem Download.Sound.closeFile (h : d.Sound o) (hopen : d.fileOpen = true) (hstream : d.stream = none) {size : ℕ}
    (hsize : d.size = some size) (hend : size ≤ d.offset) :
    Download.Sound o { d with fileOpen := false, index := d.index + 1, sizes := d.sizes ++ [size] } where
  files := h.files
  total := h.total
  written := by
    have hw := h.written
    have hle := (h.size hopen size hsize).1
    simp only [hopen, if_true] at hw
    simp only [sum_append, sum_singleton, Bool.false_eq_true, if_false]
    omega
  within := h.within
  size := nofun
  unknown := nofun
  asked := by simp [hstream]

/-- The loop over the files from the one at hand on. -/
theorem Inv.advanceLoop (w : World) : ∀ (files : List FileDescriptor) {b : ClipboardBridge} {d : Download}, Inv o b →
    b.server.answers = [] → ((∀ e ∈ b.log, Fits o e) → d.Sound o) → d.stream = none →
    ((∀ e ∈ b.log, Fits o e) → ∀ file ∈ files, file.size < 2 ^ 64) → Inv o (ClipboardBridge.advanceLoop w files b d)
  | [], b, d, h, _, _, _, _ => h.finish w d true
  | file :: rest, b, d, h, hans, hd, hstream, hfiles => by
    have hrest : (∀ e ∈ b.log, Fits o e) → ∀ file ∈ rest, file.size < 2 ^ 64 :=
      fun hf file hm => hfiles hf file (by simp [hm])
    unfold ClipboardBridge.advanceLoop
    by_cases hdir : ClipboardBridge.isDirectory file = true
    · rw [if_pos hdir]
      split_ifs
      · refine advanceLoop w rest h hans (fun hf => ?_) hstream hrest
        obtain ⟨files, total, written, within, known, unknown, asked⟩ := hd hf
        exact ⟨files, total, written, within, known, unknown, asked⟩
      · exact h.finish w d false
    · rw [if_neg hdir]
      by_cases hcreate : d.fileOpen = false ∧ w.createFile d.index = false
      · rw [if_pos hcreate]
        exact h.finish w d false
      · rw [if_neg hcreate]
        dsimp only
        -- What the two `if`s leave: the bridge with the size noted, and the file open.
        generalize hb : (if d.fileOpen = false ∧ ClipboardBridge.declaresSize file = true then
          b.note (.learned true d.sizes file.size) else b) = b'
        generalize hd' : (if d.fileOpen = true then d else ClipboardBridge.openFile d file) = d'
        have inv : Inv o b' := by
          subst hb
          split_ifs
          · exact h.aside rfl rfl (.refl _) (l := [_]) rfl (by simp)
          · exact h
        have answers : b'.server.answers = [] := by
          subst hb
          split_ifs <;> exact hans
        have back : (∀ e ∈ b'.log, Fits o e) → ∀ e ∈ b.log, Fits o e := by
          subst hb
          intro hf e he
          refine hf e ?_
          split_ifs
          · simp [ClipboardBridge.note, he]
          · exact he
        have opened : d'.fileOpen = true ∧ d'.stream = none := by
          subst hd'
          split_ifs with hopen
          · exact ⟨hopen, hstream⟩
          · exact ⟨rfl, hstream⟩
        have sound : (∀ e ∈ b'.log, Fits o e) → d'.Sound o := by
          intro hf
          subst hd'
          split_ifs with hopen
          · exact hd (back hf)
          · have hclosed : d.fileOpen = false := by simpa using hopen
            refine (hd (back hf)).openFile hclosed hstream (hfiles (back hf) file (by simp)) fun hdecl => hf _ ?_
            simp [← hb, hclosed, hdecl, ClipboardBridge.note]
        obtain ⟨hopen, hstream'⟩ := opened
        rcases hs : d'.size with _ | size
        · exact inv.requestSize answers w sound hopen hs
        · dsimp only
          split_ifs with hend
          · refine advanceLoop w rest inv answers (fun hf => ?_) hstream' fun hf => hrest (back hf)
            simpa only [hs] using (sound hf).closeFile hopen hstream' hs hend
          · exact inv.requestRange answers w sound hopen hs

theorem Inv.advanceDownload (h : Inv o b) (hans : b.server.answers = []) (w : World) : Inv o (b.advanceDownload w) := by
  unfold ClipboardBridge.advanceDownload
  rcases hd : b.download with _ | d
  · exact h
  · have sound : (∀ e ∈ b.log, Fits o e) → d.Sound o := fun hf => ((h.staging hf).download d hd).1
    dsimp only
    split_ifs with hs
    · exact h
    · refine advanceLoop w _ h hans sound (by simpa using hs) fun hf file hm => ?_
      exact (sound hf).files file (mem_of_mem_drop hm)

/-! ### Answers of the client -/

/-- The check, made with the sum that a size has to fit, tells that all of the
file stays within the limit. -/
theorem within_of_check {limit sum offset size : ℕ} (hoff : offset ≤ size)
    (hfits : sum + size ≤ limit ∨ limit < (sum + size) % 2 ^ 64)
    (hcheck : ((sum + offset) % 2 ^ 64 + (size - min size offset)) % 2 ^ 64 ≤ limit) : sum + size ≤ limit := by
  rcases hfits with h | h
  · exact h
  · omega

/-- What the check relies on: the counters agree and the size fits. -/
structure Download.Counted (o : ClipboardOptions) (d : Download) (size : ℕ) : Prop where
  files : ∀ file ∈ d.files, file.size < 2 ^ 64
  fileOpen : d.fileOpen = true
  written : d.directory.written = d.sizes.sum + d.offset
  total : d.total = d.directory.written % 2 ^ 64
  within : d.directory.written ≤ o.maxStagedBytes
  offset : d.offset ≤ size
  bound : size < 2 ^ 64
  fits : d.sizes.sum + size ≤ o.maxStagedBytes ∨ o.maxStagedBytes < (d.sizes.sum + size) % 2 ^ 64

/-- The download goes on once the check has passed. -/
theorem Inv.checkLimit (h : Inv o b) (hans : b.server.answers = []) (w : World) (size : ℕ) (hstream : d.stream = none)
    (hsize : d.size = some size) (hd : (∀ e ∈ b.log, Fits o e) → d.Counted o size) :
    Inv o (b.checkLimit w d size) := by
  unfold ClipboardBridge.checkLimit
  split_ifs with hcheck
  · exact h.finish w d false
  · have kept : Inv o { b with download := some d } := by
      refine ⟨h.options, h.single, fun hf => ?_⟩
      obtain ⟨appended, -⟩ := h.staging hf
      obtain ⟨files, hopen, written, total, within, hoff, hlt, hfits⟩ := hd hf
      have guarded : d.sizes.sum + size ≤ o.maxStagedBytes := by
        refine within_of_check hoff hfits ?_
        rw [← written, ← total, ← h.options]
        exact Nat.le_of_not_lt hcheck
      refine ⟨appended, ?_⟩
      rintro _ ⟨⟩
      refine ⟨⟨files, total, by simpa [hopen] using written, within, fun _ s hs => ?_, by simp [hsize],
        by simp [hstream]⟩, ⟨by simp [hstream], by simp [hstream]⟩⟩
      obtain rfl := Option.some.inj (hsize.symm.trans hs)
      exact ⟨hoff, hlt, .inl guarded⟩
    exact kept.advanceDownload hans w

theorem sizeOf_lt (data : Bytes) : ClipboardBridge.sizeOf data < 2 ^ 64 := by
  unfold ClipboardBridge.sizeOf
  split_ifs with h
  · norm_num
  · have hlt := leValue_lt (data.take 8)
    rw [length_take, Nat.min_eq_left (by omega)] at hlt
    exact hlt

theorem Inv.takeSize (h : Inv o b) (hans : b.server.answers = []) (w : World) (data : Bytes) (hstream : d.stream = none)
    (hd : (∀ e ∈ b.log, Fits o e) → d.Sound o ∧ d.fileOpen = true ∧ d.size = none) : Inv o (b.takeSize w d data) := by
  have noted : Inv o (b.note (.learned false d.sizes (ClipboardBridge.sizeOf data))) :=
    h.aside rfl rfl (.refl _) (l := [_]) rfl (by simp)
  refine noted.checkLimit hans w _ hstream rfl fun hf => ?_
  obtain ⟨sound, hopen, hsize⟩ := hd fun e he => hf e (by simp [ClipboardBridge.note, he])
  have fits := hf (.learned false d.sizes (ClipboardBridge.sizeOf data)) (by simp [ClipboardBridge.note])
  exact
    { files := sound.files
      fileOpen := hopen
      written := by simpa [hopen] using sound.written
      total := sound.total
      within := sound.within
      offset := by simp [sound.unknown hopen hsize]
      bound := sizeOf_lt data
      fits := fits.1 }

/-- A range of the file at hand stays within the limit. -/
theorem Guarded.append {before offset size n : ℕ} (h : Guarded o before offset size)
    (hn : n ≤ min o.rangeSize (size - offset)) (hoff : offset ≤ size) : before + offset + n ≤ o.maxStagedBytes := by
  rcases h with h | ⟨h0, h, -⟩
  · omega
  · subst h0
    omega

theorem Guarded.fits {before offset size : ℕ} (h : Guarded o before offset size) :
    before + size ≤ o.maxStagedBytes ∨ o.maxStagedBytes < (before + size) % 2 ^ 64 := by
  rcases h with h | ⟨-, -, h⟩
  · exact .inl h
  · exact .inr h

/-- What a range that was asked for does to a sound download. -/
theorem Download.Sound.append (h : d.Sound o) (hopen : d.fileOpen = true) {size n : ℕ} (hsize : d.size = some size)
    (hn : n ≤ min o.rangeSize (size - d.offset)) :
    d.directory.written + n ≤ o.maxStagedBytes ∧ Download.Counted o { d with
          directory := { d.directory with written := d.directory.written + n }
          offset := (d.offset + n) % 2 ^ 64, total := (d.total + n) % 2 ^ 64 } size := by
  obtain ⟨hoff, hlt, guarded⟩ := h.size hopen size hsize
  have hw : d.directory.written = d.sizes.sum + d.offset := by simpa [hopen] using h.written
  have hend : d.offset + n ≤ size := by omega
  have hmod : (d.offset + n) % 2 ^ 64 = d.offset + n := Nat.mod_eq_of_lt (by omega)
  have within : d.directory.written + n ≤ o.maxStagedBytes := by
    rw [hw]
    exact guarded.append hn hoff
  refine ⟨within, h.files, hopen, ?_, ?_, within, ?_, hlt, guarded.fits⟩
  · simp only [hmod]
    omega
  · simp only [h.total, Nat.mod_add_mod]
  · simpa only [hmod] using hend

theorem Inv.takeRange (h : Inv o b) (hans : b.server.answers = []) (w : World) (data : Bytes)
    (hstream : d.stream = none)
    (hd : (∀ e ∈ b.log, Fits o e) → d.Sound o ∧ d.fileOpen = true ∧
      ∃ size, d.size = some size ∧ data.length ≤ min o.rangeSize (size - d.offset)) :
    Inv o (b.takeRange w d data) := by
  unfold ClipboardBridge.takeRange
  rcases hs : d.size with _ | size
  · exact h.finish w d false
  · dsimp only
    split_ifs
    · exact h.finish w d false
    · have asked : (∀ e ∈ b.log, Fits o e) →
          d.Sound o ∧ d.fileOpen = true ∧ data.length ≤ min o.rangeSize (size - d.offset) := by
        intro hf
        obtain ⟨sound, hopen, s, hds, hle⟩ := hd hf
        obtain rfl := Option.some.inj (hs.symm.trans hds)
        exact ⟨sound, hopen, hle⟩
      have noted : Inv o (b.note (.appended (d.directory.written + data.length))) := by
        refine ⟨h.options, h.single, fun hf => ?_⟩
        have hf' : ∀ e ∈ b.log, Fits o e := fun e he => hf e (by simp [ClipboardBridge.note, he])
        obtain ⟨logged, download⟩ := h.staging hf'
        refine ⟨fun n hn => ?_, download⟩
        simp only [ClipboardBridge.note, mem_append, mem_singleton, Entry.appended.injEq] at hn
        rcases hn with hn | rfl
        · exact logged n hn
        · obtain ⟨sound, hopen, hle⟩ := asked hf'
          exact (sound.append hopen hs hle).1
      refine noted.checkLimit hans w size hstream rfl fun hf => ?_
      obtain ⟨sound, hopen, hle⟩ := asked fun e he => hf e (by simp [ClipboardBridge.note, he])
      simpa only [hs] using (sound.append hopen hs hle).2

theorem Inv.onFileContentsReceived (h : Inv o b) (hans : b.server.answers = []) (w : World) (id : ℕ)
    (data : Option Bytes)
    (hdata : (∀ e ∈ b.log, Fits o e) → ∀ d, b.download = some d → d.stream = some id →
      ∀ bytes, data = some bytes → d.Awaits o bytes.length) :
    Inv o (b.onFileContentsReceived w id data) := by
  unfold ClipboardBridge.onFileContentsReceived
  rcases hd : b.download with _ | d
  · exact h
  · dsimp only
    by_cases hs : d.stream = some id
    · rw [if_neg (not_not.mpr hs)]
      have sound : (∀ e ∈ b.log, Fits o e) → Download.Sound o { d with stream := none } ∧ d.fileOpen = true ∧
          (d.sizeRequest = true → d.size = none) := by
        intro hf
        obtain ⟨files, total, written, within, known, unknown, asked⟩ := ((h.staging hf).download d hd).1
        exact ⟨⟨files, total, written, within, known, unknown, nofun⟩, asked (by simp [hs])⟩
      rcases data with _ | data
      · exact h.finish w _ false
      · split_ifs with hsize
        · refine h.takeSize hans w data rfl fun hf => ?_
          obtain ⟨hsound, hopen, hnone⟩ := sound hf
          exact ⟨hsound, hopen, hnone hsize⟩
        · refine h.takeRange hans w data rfl fun hf => ?_
          obtain ⟨hsound, hopen, -⟩ := sound hf
          exact ⟨hsound, hopen, hdata hf d hd hs data rfl (by simpa using hsize)⟩
    · rw [if_pos hs]
      exact h

/-! ### File lists -/

theorem readFileDescriptor_size {r r' : Reader} {file : FileDescriptor} (h : readFileDescriptor r = .ok (file, r')) :
    file.size < 2 ^ 64 := by
  obtain ⟨_, _, -, h⟩ := of_bind_ok h
  obtain ⟨_, _, -, h⟩ := of_bind_ok h
  obtain ⟨_, _, -, h⟩ := of_bind_ok h
  obtain ⟨_, _, -, h⟩ := of_bind_ok h
  obtain ⟨_, _, -, h⟩ := of_bind_ok h
  obtain ⟨high, _, hhigh, h⟩ := of_bind_ok h
  obtain ⟨low, _, hlow, h⟩ := of_bind_ok h
  obtain ⟨_, _, -, h⟩ := of_bind_ok h
  cases h
  have hhigh : high < 2 ^ 32 := Reader.readLe_lt hhigh
  have hlow : low < 2 ^ 32 := Reader.readLe_lt hlow
  refine Nat.or_lt_two_pow ?_ (hlow.trans (by norm_num))
  omega

/-- The sizes of a file list are 64 bits wide. -/
theorem decodeFileList_size {data : Bytes} {files : List FileDescriptor} (h : decodeFileList data = .ok files) :
    ∀ file ∈ files, file.size < 2 ^ 64 := by
  unfold decodeFileList at h
  rcases hr : readFileList { rest := data } with e | ⟨l, r'⟩
  · rw [hr] at h
    cases h
  · rw [hr] at h
    cases h
    obtain ⟨count, r₁, -, hr⟩ := of_bind_ok hr
    obtain ⟨r₂, r₃, -, hr⟩ := of_bind_ok hr
    split_ifs at hr
    · cases hr
    · cases hr
    · exact Reader.forall_readMany (fun _ _ _ => readFileDescriptor_size) count hr

/-! ### Pastes -/

/-- A new download, with nothing staged. -/
theorem Inv.beginDownload (h : Inv o b) (hans : b.server.answers = []) (w : World) (active : ActiveTransfer)
    {files : List FileDescriptor} (hfiles : ∀ file ∈ files, file.size < 2 ^ 64) (components : List (List Text))
    (path : Text) : Inv o (b.beginDownload w active files components path) := by
  unfold ClipboardBridge.beginDownload
  have quiet : Quiet b.server (if b.server.has canLockClipdata then b.server.lock b.nextClipDataId else b.server) := by
    split_ifs
    · exact lock_quiet _ _
    · exact .refl _
  refine advanceDownload ?_ (quiet.answers.trans hans) w
  refine ⟨h.options, h.single.quiet quiet, fun hf => ?_⟩
  obtain ⟨appended, -⟩ := h.staging fun e he => hf e (by simp [ClipboardBridge.note, he])
  refine ⟨fun n hn => appended n (by simpa [ClipboardBridge.note] using hn), ?_⟩
  rintro _ ⟨⟩
  exact ⟨⟨hfiles, rfl, rfl, Nat.zero_le _, nofun, nofun, nofun⟩, ⟨by simp, by simp⟩⟩

/-- A paste is answered. -/
theorem Inv.write (h : Inv o b) (transfer : Transfer) (data : Option (Bytes × Option ℕ)) : Inv o (b.write transfer data) :=
  h.aside rfl rfl (.refl _) (l := [_]) rfl (by simp)

theorem Inv.startDownload (h : Inv o b) (hans : b.server.answers = []) (w : World) (active : ActiveTransfer)
    (fileList : Bytes) : Inv o (b.startDownload w active fileList) := by
  rcases b.startDownload_cases w active fileList with h' | ⟨files, components, path, hfiles, h'⟩
  · rw [h']
    exact h.write _ _
  · rw [h']
    exact h.beginDownload hans w active (decodeFileList_size hfiles) _ _

theorem Inv.onDataReceived (h : Inv o b) (hans : b.server.answers = []) (w : World) (data : Option Bytes) :
    Inv o (b.onDataReceived w data) := by
  unfold ClipboardBridge.onDataReceived
  rcases b.active with _ | active
  · exact h
  · have taken : Inv o { b with active := none } := h.aside rfl rfl (.refl _) (l := []) (by simp) (by simp)
    rcases data with _ | data
    · exact taken.write _ _
    · have noted : Inv o (ClipboardBridge.note { b with active := none }
          (.taken active.asked b.dataRequests[w.answers]?)) := taken.aside rfl rfl (.refl _) (l := [_]) rfl (by simp)
      dsimp only
      split_ifs
      · exact noted.startDownload hans w _ data
      · exact noted.write _ _

/-! ### Calm handlers -/

namespace ClipboardBridge

theorem finishDownload_calm (b : ClipboardBridge) (w : World) (d : Download) (ok : Bool) :
    Calm b.server (b.finishDownload w d ok).server := by
  unfold finishDownload
  rcases d.clipDataId with _ | id <;> cases ok
  · exact .refl _
  · exact .refl _
  · exact unlock_calm _ _
  · exact unlock_calm _ _

theorem requestSize_calm (b : ClipboardBridge) (w : World) (d : Download) :
    Calm b.server (b.requestSize w d).server :=
  requestFileContents_calm _ _ _ _ _ _ _

theorem requestRange_calm (b : ClipboardBridge) (w : World) (d : Download) (size : ℕ) :
    Calm b.server (b.requestRange w d size).server := by
  unfold requestRange
  dsimp only
  split_ifs
  · exact finishDownload_calm b w d false
  · exact requestFileContents_calm _ _ _ _ _ _ _

theorem advanceLoop_calm (w : World) : ∀ (files : List FileDescriptor) (b : ClipboardBridge) (d : Download),
    Calm b.server (advanceLoop w files b d).server
  | [], b, d => finishDownload_calm b w d true
  | file :: rest, b, d => by
    unfold advanceLoop
    by_cases hdir : isDirectory file = true
    · rw [if_pos hdir]
      split_ifs
      · exact advanceLoop_calm w rest b _
      · exact finishDownload_calm b w d false
    · rw [if_neg hdir]
      by_cases hcreate : d.fileOpen = false ∧ w.createFile d.index = false
      · rw [if_pos hcreate]
        exact finishDownload_calm b w d false
      · rw [if_neg hcreate]
        dsimp only
        generalize hb : (if d.fileOpen = false ∧ declaresSize file = true then
          b.note (.learned true d.sizes file.size) else b) = b'
        have noted : Calm b.server b'.server := by
          subst hb
          split_ifs <;> exact .refl _
        refine noted.trans ?_
        split
        · exact requestSize_calm b' w _
        · split_ifs
          · exact advanceLoop_calm w rest b' _
          · exact requestRange_calm b' w _ _
          · exact advanceLoop_calm w rest b' _
          · exact requestRange_calm b' w _ _

theorem advanceDownload_calm (b : ClipboardBridge) (w : World) : Calm b.server (b.advanceDownload w).server := by
  unfold advanceDownload
  split
  · exact .refl _
  · split_ifs
    · exact .refl _
    · exact advanceLoop_calm w _ b _

theorem checkLimit_calm (b : ClipboardBridge) (w : World) (d : Download) (size : ℕ) :
    Calm b.server (b.checkLimit w d size).server := by
  unfold checkLimit
  split_ifs
  · exact finishDownload_calm b w d false
  · exact advanceDownload_calm { b with download := some d } w

theorem takeRange_calm (b : ClipboardBridge) (w : World) (d : Download) (data : Bytes) :
    Calm b.server (b.takeRange w d data).server := by
  unfold takeRange
  split
  · exact finishDownload_calm b w d false
  · split_ifs
    · exact finishDownload_calm b w d false
    · exact checkLimit_calm (b.note _) w _ _

theorem onFileContentsReceived_calm (b : ClipboardBridge) (w : World) (id : ℕ) (data : Option Bytes) :
    Calm b.server (b.onFileContentsReceived w id data).server := by
  unfold onFileContentsReceived
  split
  · exact .refl _
  · split_ifs with hs
    · exact .refl _
    · dsimp only
      split
      · exact finishDownload_calm b w _ false
      · split_ifs
        · exact checkLimit_calm (b.note _) w _ _
        · exact takeRange_calm b w _ _

theorem beginDownload_calm (b : ClipboardBridge) (w : World) (active : ActiveTransfer) (files : List FileDescriptor)
    (components : List (List Text)) (path : Text) :
    Calm b.server (b.beginDownload w active files components path).server := by
  unfold beginDownload
  refine Calm.trans ?_ (advanceDownload_calm _ w)
  split_ifs
  · exact lock_calm _ _
  · exact .refl _

theorem startDownload_calm (b : ClipboardBridge) (w : World) (active : ActiveTransfer) (data : Bytes) :
    Calm b.server (b.startDownload w active data).server := by
  rcases startDownload_cases b w active data with h | ⟨files, components, path, -, h⟩
  · rw [h]
    exact .refl _
  · rw [h]
    exact beginDownload_calm b w active files components path

theorem onDataReceived_calm (b : ClipboardBridge) (w : World) (data : Option Bytes) :
    Calm b.server (b.onDataReceived w data).server := by
  unfold onDataReceived
  split
  · exact .refl _
  · rename_i active _
    split
    · exact .refl _
    · dsimp only
      split_ifs
      · exact startDownload_calm (note { b with active := none } _) w _ _
      · exact .refl _

theorem onRemoteFormats_calm (b : ClipboardBridge) (w : World) (list : List Format) :
    Calm b.server (b.onRemoteFormats w list).server := by
  unfold onRemoteFormats
  dsimp only
  split_ifs
  · split
    · exact .refl _
    · exact announce_calm _ _
  · exact .refl _
  · exact .refl _

/-- Handling an event leaves no more to be handed out. -/
theorem handleEvent_waiting (b : ClipboardBridge) (w : World) (e : ServerEvent) :
    (b.handleEvent w e).server.waiting ≤ b.server.waiting := by
  cases e with
  | ready _ | formatListAnswered _ | unlocked id => exact le_rfl
  | remoteFormatList formats => exact (onRemoteFormats_calm b w formats).waiting.le
  | dataRequested id formatId => exact (onDataRequested_aside b w id formatId).waiting
  | fileContentsRequested id request => exact (onFileContentsRequested_aside b w id request).waiting
  | dataReceived data => exact (onDataReceived_calm b w data).waiting.le
  | fileContentsReceived id data => exact (onFileContentsReceived_calm b w id data).waiting.le
  | locked id => exact (onLocked_aside b id).waiting

/-- **The loop over the events ends with none left.** -/
theorem drain_events (w : World) : ∀ (n : ℕ) (b : ClipboardBridge), b.server.waiting ≤ n →
    (drain w n b).server.events = []
  | 0, b, h => by
    unfold waiting at h
    exact length_eq_zero_iff.mp (by simp only [drain]; omega)
  | n + 1, b, h => by
    unfold drain
    rcases he : b.server.events with _ | ⟨e, rest⟩
    · exact he
    · refine drain_events w n _ ((handleEvent_waiting _ w e).trans ?_)
      simp only [waiting, he, length_cons] at h ⊢
      omega

end ClipboardBridge

/-! ### The event loop -/

theorem Inv.of_aside (h : Inv o b) (ha : ClipboardBridge.Aside b b') : Inv o b' :=
  h.aside ha.options ha.download ha.quiet (l := []) (by simp [ha.log]) (by simp)

variable {e : ServerEvent}

/-- An event that answers no request. -/
theorem Inv.handleOther (h : Inv o b) (w : World) (he : isAnswer e = false) : Inv o (b.handleEvent w e) := by
  cases e with
  | ready _ | formatListAnswered _ => exact h
  | remoteFormatList formats =>
    unfold handleEvent onRemoteFormats
    dsimp only
    split_ifs
    · split
      · exact h.aside rfl rfl (.refl _) (l := []) (by simp) (by simp)
      · exact h.aside rfl rfl (announce_quiet _ _) (l := []) (by simp [announceDesktop]) (by simp)
    · exact h.aside rfl rfl (.refl _) (l := []) (by simp) (by simp)
    · exact h.aside rfl rfl (.refl _) (l := [_]) rfl (by simp)
  | dataRequested id formatId => exact h.of_aside (b.onDataRequested_aside w id formatId)
  | fileContentsRequested id request => exact h.of_aside (b.onFileContentsRequested_aside w id request)
  | locked id => exact h.of_aside (b.onLocked_aside id)
  | unlocked id => exact h.aside rfl rfl (.refl _) (l := []) (by simp [handleEvent]) (by simp)
  | dataReceived _ | fileContentsReceived _ _ => cases he

theorem answers_cons (s : ClipboardServer) {rest : List ServerEvent} (he : s.events = e :: rest) :
    s.answers = if isAnswer e then e :: answers { s with events := rest } else answers { s with events := rest } := by
  simp only [answers, he, filter_cons]

/-- The first event is taken from the queue and handled. -/
theorem Inv.poll (h : Inv o b) (w : World) {rest : List ServerEvent} (he : b.server.events = e :: rest) :
    Inv o (handleEvent { b with server := { b.server with events := rest } } w e) := by
  have hcons := answers_cons b.server he
  by_cases ha : isAnswer e = true
  · -- It was the one answer in the queue.
    rw [if_pos ha] at hcons
    have hnone : answers { b.server with events := rest } = [] := by
      rcases h.single with hs | ⟨-, e', hs⟩
      · rw [hcons] at hs
        cases hs
      · rw [hcons] at hs
        exact (List.cons.inj hs).2
    have taken : Inv o { b with server := { b.server with events := rest } } := by
      refine ⟨h.options, .inl hnone, fun hf => ?_⟩
      obtain ⟨appended, download⟩ := h.staging hf
      refine ⟨appended, fun d hd => ⟨(download d hd).1, (download d hd).2.outgoing, ?_⟩⟩
      intro id data hm
      rw [hnone] at hm
      cases hm
    cases e with
    | dataReceived data => exact taken.onDataReceived hnone w data
    | fileContentsReceived id data =>
      refine taken.onFileContentsReceived hnone w id data fun hf d hd hs bytes hdata => ?_
      subst hdata
      exact ((h.staging hf).download d hd).2.events id bytes (by simp [hcons]) hs
    | _ => cases ha
  · rw [if_neg ha] at hcons
    refine handleOther ?_ w (by simpa using ha)
    exact h.aside rfl rfl ⟨rfl, hcons.symm⟩ (l := []) (by simp) (by simp)

theorem Inv.drain (w : World) : ∀ (n : ℕ) {b : ClipboardBridge}, Inv o b → Inv o (ClipboardBridge.drain w n b)
  | 0, _, h => h
  | n + 1, b, h => by
    unfold ClipboardBridge.drain
    rcases he : b.server.events with _ | ⟨e, rest⟩
    · exact h
    · exact drain w n (h.poll w he)

/-- The loop over the pastes. -/
theorem Inv.pumpLoop (w : World) : ∀ (transfers : List Transfer) {b : ClipboardBridge}, Inv o b →
    b.server.answers = [] →
    Inv o (ClipboardBridge.pumpLoop w transfers b) ∧ (ClipboardBridge.pumpLoop w transfers b).server.answers = []
  | [], b, h, hans => ⟨h.aside rfl rfl (.refl _) (l := []) (by simp [ClipboardBridge.pumpLoop]) (by simp), hans⟩
  | t :: rest, b, h, hans => by
    have waits : Inv o { b with transfers := t :: rest } := h.aside rfl rfl (.refl _) (l := []) (by simp) (by simp)
    have refused := pumpLoop w rest (h.write t none) hans
    unfold ClipboardBridge.pumpLoop
    by_cases hactive : b.active.isSome = true
    · rw [if_pos hactive]
      exact ⟨waits, hans⟩
    · rw [if_neg hactive]
      by_cases hready : b.server.ready = false
      · rw [if_pos hready]
        exact refused
      · rw [if_neg hready]
        split
        · exact refused
        · rename_i format _
          split
          · exact pumpLoop w rest (h.write t _) hans
          · split
            · rename_i d _
              refine pumpLoop w rest ?_ hans
              exact h.aside rfl rfl (.refl _) (l := [_]) rfl (by simp)
            · dsimp only
              rcases requestData_cases b.server format w.now with hr | ⟨s', out, hr, hout, hdata, hev⟩
              · rw [hr]
                exact ⟨waits, hans⟩
              · rw [hr]
                have hnone : s'.answers = [] := by rw [answers, hev, ← answers, hans]
                refine ⟨⟨h.options, .inl hnone, fun hf => ?_⟩, hnone⟩
                obtain ⟨appended, download⟩ := h.staging hf
                refine ⟨appended, fun d hd => ⟨(download d hd).1, ?_, ?_⟩⟩
                · intro out' ho hfile
                  obtain rfl := Option.some.inj (hout.symm.trans ho)
                  simp [hdata] at hfile
                · intro id data hm
                  simp [hnone] at hm

/-- A call that ends with no answer left in the queue. -/
theorem Inv.process (h : Inv o b) (w : World) : Inv o (b.process w) ∧ (b.process w).server.answers = [] := by
  have drained : Inv o (b.drainAll w) := drain w _ h
  have empty : (b.drainAll w).server.answers = [] := by
    rw [answers, show (b.drainAll w).server.events = [] from ClipboardBridge.drain_events w _ b le_rfl]
    rfl
  obtain ⟨pumped, hans⟩ := pumpLoop w (b.drainAll w).transfers drained empty
  have advanced := advanceDownload pumped hans w
  refine ⟨advanced.aside rfl rfl ⟨rfl, rfl⟩ (l := []) ?_ (by simp), ?_⟩
  · simp [ClipboardBridge.process, ClipboardBridge.pumpTransfers]
  · exact (ClipboardBridge.advanceDownload_calm _ w).answers.trans hans

/-- The client answered, or took too long. -/
theorem Inv.answered (h : Inv o b) (hans : b.server.answers = []) {s : ClipboardServer} (hs : Outcome b.server s) :
    Inv o { b with server := s } := by
  rcases hs with hq | ⟨out, e, hout, hnone, he, hanswer⟩
  · exact h.aside rfl rfl hq (l := []) (by simp) (by simp)
  · rw [hans] at he
    refine ⟨h.options, .inr ⟨hnone, e, he⟩, fun hf => ?_⟩
    obtain ⟨appended, download⟩ := h.staging hf
    refine ⟨appended, fun d hd => ⟨(download d hd).1, by simp [hnone], ?_⟩⟩
    intro id data hm hstream
    obtain rfl := mem_singleton.mp (he ▸ hm)
    obtain ⟨hfile, hid, hlen⟩ := hanswer id data rfl
    have awaits := (download d hd).2.outgoing out hout hfile (hid ▸ hstream)
    exact fun hr => (awaits hr).imp fun size hsize => ⟨hsize.1, hlen.trans hsize.2⟩

/-! ### Runs -/

/-- What holds between calls. -/
structure Between (o : ClipboardOptions) (b : ClipboardBridge) : Prop where
  options : b.options = o
  working : b.failed = false → Inv o b ∧ b.server.answers = []
  appended : (∀ e ∈ b.log, Fits o e) → ∀ n, .appended n ∈ b.log → n ≤ o.maxStagedBytes

theorem Between.of_inv (h : Inv o b) (hans : b.server.answers = []) : Between o b :=
  ⟨h.options, fun _ => ⟨h, hans⟩, fun hf => (h.staging hf).appended⟩

theorem Between.of_aside (h : Between o b) (ha : ClipboardBridge.Aside b b') : Between o b' := by
  refine ⟨ha.options.trans h.options, fun hfailed => ?_, ?_⟩
  · obtain ⟨inv, hans⟩ := h.working (ha.failed ▸ hfailed)
    exact ⟨inv.of_aside ha, ha.quiet.answers.trans hans⟩
  · rw [ha.log]
    exact h.appended

theorem Between.failTransfers (h : Between o b) (s : ClipboardServer) :
    Between o (ClipboardBridge.failTransfers { b with server := s, failed := true }) where
  options := h.options
  working := nofun
  appended := fun hf n hn => by
    refine h.appended (fun e he => hf e ?_) n ?_
    · simp [ClipboardBridge.failTransfers, ClipboardBridge.refuseAll, he]
    · simpa [ClipboardBridge.failTransfers, ClipboardBridge.refuseAll] using hn

theorem Between.receive (h : Between o b) (w : World) (chunk : ClipboardBridge.Chunk) :
    Between o (b.receive w chunk) := by
  unfold ClipboardBridge.receive
  by_cases hfailed : b.failed = true
  · rw [if_pos hfailed]
    exact h
  · rw [if_neg hfailed]
    obtain ⟨inv, hans⟩ := h.working (by simpa using hfailed)
    rcases chunk with e | _ | pdu
    · exact h.failTransfers _
    · obtain ⟨processed, hans'⟩ := inv.process w
      exact .of_inv processed hans'
    · dsimp only
      split_ifs with herr
      · exact h.failTransfers _
      · have outcome := receive_outcome b.server pdu w.now (by simpa using herr)
        obtain ⟨processed, hans'⟩ := (inv.answered hans outcome).process w
        exact .of_inv processed hans'

theorem Between.handleDesktop (w : World) : ∀ (events : List ClipboardBridge.DesktopEvent) {b : ClipboardBridge},
    Between o b → Between o (events.foldl (ClipboardBridge.handleDesktop w) b)
  | [], _, h => h
  | e :: events, b, h => by
    refine Between.handleDesktop w events ?_
    cases e with
    | ownerChanged mimes =>
      have changed : Between o { b with desktopMimes := some mimes } := h.of_aside ⟨rfl, rfl, rfl, rfl, rfl, rfl, rfl,
        rfl, rfl, .refl _, le_rfl⟩
      unfold ClipboardBridge.handleDesktop
      dsimp only
      split_ifs
      · exact changed.of_aside (ClipboardBridge.announceDesktop_aside _ w mimes)
      · exact changed
    | transferRequested serial mimeType =>
      refine ⟨h.options, fun hfailed => ?_, h.appended⟩
      obtain ⟨inv, hans⟩ := h.working hfailed
      exact ⟨inv.aside rfl rfl (.refl _) (l := []) (by simp [ClipboardBridge.handleDesktop]) (by simp), hans⟩
    | readFinished id data => exact h.of_aside (b.onReadFinished_aside w id data)

theorem Between.service (h : Between o b) (w : World) (events : List ClipboardBridge.DesktopEvent) :
    Between o (b.service w events) := by
  have handled := h.handleDesktop w events
  unfold ClipboardBridge.service
  generalize events.foldl (ClipboardBridge.handleDesktop w) b = b' at handled
  by_cases hfailed : b'.failed = true
  · rw [if_pos hfailed]
    have ended := handled.failTransfers b'.server
    rwa [← hfailed] at ended
  · rw [if_neg hfailed]
    obtain ⟨inv, hans⟩ := handled.working (by simpa using hfailed)
    obtain ⟨processed, hans'⟩ := (inv.answered hans (tick_outcome b'.server w.now)).process w
    exact .of_inv processed hans'

theorem Between.step (h : Between o b) (w : World) (c : ClipboardBridge.Call) : Between o (b.step w c) := by
  cases c with
  | start mimes =>
    have quiet : Quiet b.server { b.server.start with output := [] } := by
      unfold ClipboardServer.start
      split_ifs <;> exact ⟨rfl, rfl⟩
    refine ⟨h.options, fun hfailed => ?_, h.appended⟩
    obtain ⟨inv, hans⟩ := h.working hfailed
    exact ⟨inv.aside rfl rfl quiet (l := []) (by simp [ClipboardBridge.step]) (by simp), quiet.answers.trans hans⟩
  | receive chunk => exact h.receive w chunk
  | service events => exact h.service w events

theorem Between.run : ∀ (calls : List (World × ClipboardBridge.Call)) {b : ClipboardBridge}, Between o b →
    Between o (b.run calls)
  | [], _, h => h
  | c :: calls, _, h => Between.run calls (h.step c.1 c.2)

theorem between_make (o : ClipboardOptions) : Between o (make o) := .of_inv ⟨rfl, .inl rfl, fun _ => ⟨nofun, nofun⟩⟩ rfl

/-- **The client's answers are handled in the call that brings them**, so what
its `World` says of an answer is said of that one. -/
theorem run_handled (o : ClipboardOptions) (calls : List (World × ClipboardBridge.Call))
    (h : ((make o).run calls).failed = false) : ((make o).run calls).server.answers = [] :=
  (((between_make o).run calls).working h).2

/-- **What is staged stays within the limit**, at every moment of every run
in which every size that becomes known fits. -/
theorem run_staged (o : ClipboardOptions) (calls : List (World × ClipboardBridge.Call))
    (h : ∀ e ∈ ((make o).run calls).log, Fits o e) (n : ℕ)
    (hn : .appended n ∈ ((make o).run calls).log) : n ≤ o.maxStagedBytes :=
  ((between_make o).run calls).appended h n hn

/-! ### Two files -/

/-- A descriptor with a name of one letter. -/
def descriptor (flags size : ℕ) (name : UInt8) : Bytes :=
  Writer.u32le flags ++ Writer.zeros 60 ++ Writer.u32le (size >>> 32) ++ Writer.u32le size ++ [name,
    0] ++ Writer.zeros 518

/-- The client copied a file of unknown size, 4 bytes as it says when asked,
and one of a declared byte; the desktop pastes them. -/
def twoFiles : List (World × ClipboardBridge.Call) :=
  [.start none, .receive (.message (.ok (.capabilities (some 0x3E)))),
    .receive (.message (.ok (.formatList [⟨0xC000, fileGroupDescriptorW⟩]))),
    .service [.transferRequested 1 uriListMime],
    .receive (.message (.ok (.formatDataResponse true
      (Writer.u32le 2 ++ descriptor 0 0 0x61 ++ descriptor fdFileSize 1 0x62)))),
    .receive (.message (.ok (.fileContentsResponse true 1 (leBytes 8 4)))),
    .receive (.message (.ok (.fileContentsResponse true 2 [1, 2, 3, 4]))),
    .receive (.message (.ok (.fileContentsResponse true 3 [5])))].map
      fun call => ({ createDirectory := some }, call)

/-- With a limit of 8 bytes both files are staged. -/
theorem twoFiles_staged :
    (∀ e ∈ ((make { maxStagedBytes := 8, stagingRoot := text "/run" }).run twoFiles).log,
      Fits { maxStagedBytes := 8, stagingRoot := text "/run" } e) ∧
    .appended 5 ∈ ((make { maxStagedBytes := 8, stagingRoot := text "/run" }).run twoFiles).log ∧
    5 ≤ 8 := by
  have fits : ∀ e ∈ ((make { maxStagedBytes := 8, stagingRoot := text "/run" }).run twoFiles).log,
      Fits { maxStagedBytes := 8, stagingRoot := text "/run" } e := by decide +kernel
  have staged : .appended 5 ∈ ((make { maxStagedBytes := 8, stagingRoot := text "/run" }).run twoFiles).log := by
    decide +kernel
  exact ⟨fits, staged, run_staged { maxStagedBytes := 8, stagingRoot := text "/run" } twoFiles fits 5 staged⟩

/-- With a limit of 4 bytes the first file fills it, and the byte of the
second is appended before it is checked. -/
theorem beyond_limit :
    ¬ ∀ n, .appended n ∈ ((make { maxStagedBytes := 4, stagingRoot := text "/run" }).run twoFiles).log → n ≤ 4 := by
  have staged : .appended 5 ∈ ((make { maxStagedBytes := 4, stagingRoot := text "/run" }).run twoFiles).log := by
    decide +kernel
  intro h
  have := h 5 staged
  omega

end Clipboard
end Farland
