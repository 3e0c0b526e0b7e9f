/-
# Scroll detection

`server/scroll_detector.cpp`: a region of the last frame that reappears
shifted vertically in the new one. The area is cut into column strips; rows
that occur once vote for the distance they moved, and the largest run of rows
that moved by the winning distance, across adjacent strips, is the move. Here
is what follows the vote.

Key theorem: `foldl_group_in`.
-/
import Farland.Codec.Clear.Wire
import Farland.Server.DisplayLayout

namespace Farland
namespace Server
namespace Scroll

open List

open Codec.Clear (ImageView)

def bytesPerPixel : ℕ := 4

/-- The pixels of `source` are `dy` rows lower in the new frame. -/
structure ScrollMove where
  source : PixelRect
  dy : ℤ
  deriving DecidableEq

def ScrollMove.destination (move : ScrollMove) : PixelRect :=
  { move.source with y := (move.source.y + move.dy).toNat }

structure ScrollDetectorConfig where
  stripWidth : ℕ := 64
  minRows : ℕ := 32
  minWidth : ℕ := 128
  maxDistance : ℕ := 0
  deriving DecidableEq

def rowBytes (image : ImageView) (y x width : ℕ) : List UInt8 :=
  (image.data.drop (y * image.stride + x * bytesPerPixel)).take (width * bytesPerPixel)

/-- Eight bytes at a time, in 64-bit arithmetic; `fuel` bounds the words. -/
def hashFrom : ℕ → ℕ → List UInt8 → ℕ
  | 0, h, _ => h
  | fuel + 1, h, bytes =>
    if bytes = [] then h
    else
      let h := (h ^^^ LittleEndian.leValue (bytes.take 8)) * 0x9E3779B97F4A7C15 % 2 ^ 64
      hashFrom fuel (h ^^^ h >>> 29) (bytes.drop 8)

def hashRow (bytes : List UInt8) : ℕ := hashFrom bytes.length 0x243F6A8885A308D3 bytes

/-- A column strip of the area: a hash for each row, before and now. -/
structure Strip where
  x : ℕ
  width : ℕ
  previous : List ℕ
  current : List ℕ
  deriving DecidableEq

/-- The area, clipped to the frames. -/
def clip (area : PixelRect) (image : ImageView) : PixelRect :=
  let x := min area.x image.width
  let y := min area.y image.height
  ⟨x, y, min area.width (image.width - x), min area.height (image.height - y)⟩

/-- How far a changed row moved, if its content occurs once among the rows
before. -/
def vote (strip : Strip) (maxDistance : ℤ) (row : ℕ) : Option ℤ :=
  let hash := strip.current.getD row 0
  if hash = strip.previous.getD row 0 ∨ strip.previous.count hash ≠ 1 then none
  else
    let distance : ℤ := row - strip.previous.idxOf hash
    if distance ≠ 0 ∧ |distance| ≤ maxDistance then some distance else none

def votesOf (strips : List Strip) (rows : ℕ) (maxDistance : ℤ) : List ℤ :=
  strips.flatMap fun strip => (List.range rows).filterMap (vote strip maxDistance)

/-- Whether a row of a strip moved by `dy` from inside the area. -/
def moved (rows : ℕ) (dy : ℤ) (strip : Strip) (row : ℕ) : Bool :=
  let source : ℤ := row - dy
  0 ≤ source && source < rows && strip.current.getD row 0 == strip.previous.getD source.toNat 0

/-- Most of the rows that can have moved did. -/
def good (rows : ℕ) (dy : ℤ) (strip : Strip) : Bool :=
  (rows : ℤ) - |dy| ≤ ((List.range rows).filter (moved rows dy strip)).length * 2

/-- Runs of adjacent good strips, behind the run `group`. -/
def goodGroups (isGood : Strip → Bool) : List Strip → List Strip → List (List Strip)
  | group, [] => if group = [] then [] else [group]
  | group, strip :: strips =>
    if isGood strip then goodGroups isGood (group ++ [strip]) strips
    else (if group = [] then [] else [group]) ++ goodGroups isGood [] strips

/-- The current and the longest run of rows. -/
structure Scan where
  run : ℕ := 0
  runStart : ℕ := 0
  bestRun : ℕ := 0
  bestStart : ℕ := 0
  deriving DecidableEq

def Scan.row (ok : ℕ → Bool) (s : Scan) (row : ℕ) : Scan :=
  if !ok row then { s with run := 0 }
  else
    let runStart := if s.run = 0 then row else s.runStart
    let run := s.run + 1
    if run > s.bestRun then ⟨run, runStart, run, runStart⟩ else { s with run := run, runStart := runStart }

def scan (ok : ℕ → Bool) (rows : ℕ) : Scan := (List.range rows).foldl (Scan.row ok) {}

/-- A row moved across all strips of a group, byte by byte. -/
def rowMoved (previous current : ImageView) (area : PixelRect) (dy : ℤ) (group : List Strip) (x width row : ℕ) : Bool :=
  group.all (fun strip => moved area.height dy strip row) &&
    rowBytes current (area.y + row) x width == rowBytes previous (area.y + row - dy).toNat x width

def groupX (group : List Strip) : ℕ := (group.head?.map Strip.x).getD 0
def groupEnd (group : List Strip) : ℕ := (group.getLast?.map fun strip => strip.x + strip.width).getD 0

/-- The largest move so far and its area. -/
structure Best where
  move : Option ScrollMove := none
  area : ℕ := 0
  deriving DecidableEq

def Best.group (previous current : ImageView) (area : PixelRect) (config : ScrollDetectorConfig) (dy : ℤ) (best : Best)
    (group : List Strip) : Best :=
  let x := groupX group
  let width := groupEnd group - x
  if width < config.minWidth then best
  else
    let s := scan (rowMoved previous current area dy group x width) area.height
    if s.bestRun ≥ config.minRows ∧ s.bestRun * width > best.area then
      ⟨some ⟨⟨x, (area.y + s.bestStart - dy).toNat, width, s.bestRun⟩, dy⟩, s.bestRun * width⟩
    else best

/-- One row of the move, in an image with rows of `stride` bytes. -/
def copyRow (stride : ℕ) (move : ScrollMove) (image : List UInt8) (i : ℕ) : List UInt8 :=
  let xOffset := move.source.x * bytesPerPixel
  let source := (image.drop ((move.source.y + i) * stride + xOffset)).take (move.source.width * bytesPerPixel)
  Ring.overwrite image ((move.destination.y + i) * stride + xOffset) source

/-- Rows still to be read are not overwritten first. -/
def applyScroll (image : List UInt8) (stride : ℕ) (move : ScrollMove) : List UInt8 :=
  let rows := List.range move.source.height
  (if move.dy > 0 then rows.reverse else rows).foldl (copyRow stride move) image

/-! ### The longest run of rows -/

/-- What the scan knows after the first `n` rows. -/
structure Scan.Sound (ok : ℕ → Bool) (n : ℕ) (s : Scan) : Prop where
  ends : s.run ≠ 0 → s.runStart + s.run = n
  run_ok : ∀ row, s.runStart ≤ row → row < s.runStart + s.run → ok row = true
  best_le : s.bestStart + s.bestRun ≤ n
  best_ok : ∀ row, s.bestStart ≤ row → row < s.bestStart + s.bestRun → ok row = true

theorem Scan.Sound.row {ok : ℕ → Bool} {n : ℕ} {s : Scan} (h : s.Sound ok n) : (s.row ok n).Sound ok (n + 1) := by
  unfold Scan.row
  by_cases hn : ok n
  · have hstart : (if s.run = 0 then n else s.runStart) + (s.run + 1) = n + 1 := by
      split_ifs with hrun
      · omega
      · have := h.ends hrun
        omega
    have hrow : ∀ row, (if s.run = 0 then n else s.runStart) ≤ row →
        row < (if s.run = 0 then n else s.runStart) + (s.run + 1) → ok row = true := by
      intro row hle hlt
      by_cases hlast : row = n
      · exact hlast ▸ hn
      · have hrun : s.run ≠ 0 := by
          intro hrun
          omega
        rw [if_neg hrun] at hle
        have := h.ends hrun
        exact h.run_ok row hle (by omega)
    simp only [hn, Bool.not_true, Bool.false_eq_true, if_false]
    generalize (if s.run = 0 then n else s.runStart) = start at hstart hrow
    split_ifs
    · exact ⟨fun _ => hstart, hrow, hstart.le, hrow⟩
    · exact ⟨fun _ => hstart, hrow, h.best_le.trans (Nat.le_succ n), h.best_ok⟩
  · simp only [hn]
    exact ⟨fun hrun => absurd rfl hrun, fun row hle hlt => absurd hlt (by simpa using hle),
      h.best_le.trans (Nat.le_succ n), h.best_ok⟩

theorem scan_sound (ok : ℕ → Bool) (rows : ℕ) : (scan ok rows).Sound ok rows := by
  unfold scan
  induction rows with
  | zero => exact ⟨fun h => absurd rfl h, fun _ _ h => absurd h (Nat.not_lt_zero _), le_rfl,
      fun _ _ h => absurd h (Nat.not_lt_zero _)⟩
  | succ n ih =>
    rw [range_succ, foldl_append]
    exact ih.row

/-! ### Strips and groups -/

/-- A strip of the area. -/
def Strip.In (area : PixelRect) (strip : Strip) : Prop :=
  area.x ≤ strip.x ∧ strip.x + strip.width ≤ area.x + area.width

/-- A group has strips, all of them from the list it was cut from. -/
theorem goodGroups_spec {P : Strip → Prop} {isGood : Strip → Bool} :
    ∀ {strips group : List Strip}, (∀ strip ∈ group, P strip) →
    (∀ strip ∈ strips, P strip) → ∀ g ∈ goodGroups isGood group strips, g ≠ [] ∧ ∀ strip ∈ g, P strip
  | [], group, hgroup, _, g, hg => by
    rw [goodGroups] at hg
    split_ifs at hg with hempty
    · simp at hg
    · rw [mem_singleton] at hg
      exact hg ▸ ⟨hempty, hgroup⟩
  | strip :: strips, group, hgroup, hstrips, g, hg => by
    have hrest : ∀ s ∈ strips, P s := fun s hs => hstrips s (by simp [hs])
    rw [goodGroups] at hg
    split_ifs at hg with hgood hempty
    · refine goodGroups_spec (fun s hs => ?_) hrest g hg
      rcases mem_append.mp hs with hs | hs
      · exact hgroup s hs
      · rw [mem_singleton] at hs
        exact hs ▸ hstrips strip (by simp)
    · exact goodGroups_spec (by simp) hrest g hg
    · rcases mem_append.mp hg with hg | hg
      · rw [mem_singleton] at hg
        exact hg ▸ ⟨hempty, hgroup⟩
      · exact goodGroups_spec (by simp) hrest g hg

variable {group : List Strip}

theorem groupX_mem (h : group ≠ []) : ∃ strip ∈ group, groupX group = strip.x := by
  obtain ⟨strip, rest, rfl⟩ := exists_cons_of_ne_nil h
  exact ⟨strip, by simp, rfl⟩

theorem groupEnd_mem (h : group ≠ []) : ∃ strip ∈ group, groupEnd group = strip.x + strip.width :=
  ⟨group.getLast h, getLast_mem h, by rw [groupEnd, getLast?_eq_some_getLast h]; rfl⟩

/-! ### Where a move is -/

/-- A move with pixels inside an area. -/
structure MovesIn (area : PixelRect) (move : ScrollMove) : Prop where
  width_pos : 0 < move.source.width
  height_pos : 0 < move.source.height
  left_le : area.x ≤ move.source.x
  right_le : move.source.x + move.source.width ≤ area.x + area.width
  source_le : area.y ≤ move.source.y
  source_bottom : move.source.y + move.source.height ≤ area.y + area.height
  destination_le : area.y ≤ move.destination.y
  destination_bottom : move.destination.y + move.source.height ≤ area.y + area.height

variable {area : PixelRect}

/-- The rows that a row of the area moved from. -/
theorem source_of_rowMoved {previous current : ImageView} {dy : ℤ} {x width row : ℕ} (hgroup : group ≠ [])
    (h : rowMoved previous current area dy group x width row = true) :
    0 ≤ (row : ℤ) - dy ∧ (row : ℤ) - dy < area.height := by
  obtain ⟨strip, rest, rfl⟩ := exists_cons_of_ne_nil hgroup
  simp only [rowMoved, all_cons, Bool.and_eq_true, moved, decide_eq_true_eq] at h
  exact ⟨h.1.1.1.1, h.1.1.1.2⟩

theorem Best.group_in {previous current : ImageView} {config : ScrollDetectorConfig} {dy : ℤ} {best : Best}
    (hgroup : group ≠ []) (hstrips : ∀ strip ∈ group, strip.In area)
    (hbest : ∀ move, best.move = some move → MovesIn area move) :
    ∀ move, (best.group previous current area config dy group).move = some move → MovesIn area move := by
  intro move hmove
  unfold Best.group at hmove
  dsimp only at hmove
  split_ifs at hmove with hnarrow hlarger
  · exact hbest move hmove
  · obtain rfl := Option.some.inj hmove
    obtain ⟨first, hfirst, hx⟩ := groupX_mem hgroup
    obtain ⟨last, hlast, hend⟩ := groupEnd_mem hgroup
    have hscan := scan_sound (rowMoved previous current area dy group (groupX group) (groupEnd group - groupX group))
      area.height
    generalize scan _ area.height = s at *
    have hpos : 0 < s.bestRun * (groupEnd group - groupX group) := lt_of_le_of_lt (Nat.zero_le _) hlarger.2
    have hrun := Nat.pos_of_mul_pos_right hpos
    have hwidth := Nat.pos_of_mul_pos_left hpos
    have hleft := (hstrips first hfirst).1
    have hright := (hstrips last hlast).2
    have hbottom := hscan.best_le
    -- the first and the last row of the run come from inside the area
    have htop := source_of_rowMoved hgroup (hscan.best_ok s.bestStart le_rfl (by omega))
    have hlow := source_of_rowMoved hgroup (hscan.best_ok (s.bestStart + s.bestRun - 1) (by omega) (by omega))
    exact
      { width_pos := hwidth
        height_pos := hrun
        left_le := hx ▸ hleft
        right_le := by
          dsimp only
          omega
        source_le := by
          dsimp only
          omega
        source_bottom := by
          dsimp only
          omega
        destination_le := by
          change area.y ≤ ((area.y + s.bestStart - dy).toNat + dy).toNat
          omega
        destination_bottom := by
          change ((area.y + s.bestStart - dy).toNat + dy).toNat + s.bestRun ≤ _
          omega }
  · exact hbest move hmove

theorem foldl_group_in {previous current : ImageView} {config : ScrollDetectorConfig} {dy : ℤ} :
    ∀ {groups : List (List Strip)} {best : Best}, (∀ group ∈ groups, group ≠ [] ∧ ∀ strip ∈ group, strip.In area) →
      (∀ move, best.move = some move → MovesIn area move) →
      ∀ move, (groups.foldl (Best.group previous current area config dy) best).move = some move → MovesIn area move
  | [], _, _, hbest => hbest
  | group :: groups, best, hgroups, hbest => by
    rw [foldl_cons]
    obtain ⟨hne, hstrips⟩ := hgroups group (by simp)
    exact foldl_group_in (fun g hg => hgroups g (by simp [hg])) (Best.group_in hne hstrips hbest)

end Scroll
end Server
end Farland
