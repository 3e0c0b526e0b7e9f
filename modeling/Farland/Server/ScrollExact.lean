/-
# A detected scroll is a real one

Scroll detection with everything left open that its result does not depend on:
the hash of a row, and the order in which the table of votes is gone through.
Integers are of the widths that they have. What is found is checked byte by
byte, so that the move, applied to a copy of the last frame with rows of any
stride, gives the new frame where it goes and changes nothing elsewhere.

Key theorems: `applyScroll_exact`, `winnerOf_perm`, `detectWith_exact`,
**`detect_real_iff`**.
-/
import Farland.Lib.Windows
import Farland.Server.ScrollDetector

namespace Farland
namespace Server
namespace Scroll

open List Best

open Codec.Clear (ImageView)

/-! ### Detection, with the hash and the order left open -/

/-- Where the strips begin: `x += strip_width` in 32 bits, which may go past
the end and start again; `fuel` bounds the strips then. -/
def stripStarts (stripWidth limit : ℕ) : ℕ → ℕ → List ℕ
  | 0, _ => []
  | fuel + 1, x => if x < limit then x :: stripStarts stripWidth limit fuel ((x + stripWidth) % 2 ^ 32) else []

def stripWith (hash : List UInt8 → ℕ) (previous current : ImageView) (area : PixelRect) (stripWidth x : ℕ) : Strip :=
  let width := min stripWidth (area.x + area.width - x)
  { x := x
    width := width
    previous := (List.range area.height).map fun row => hash (rowBytes previous (area.y + row) x width)
    current := (List.range area.height).map fun row => hash (rowBytes current (area.y + row) x width) }

def stripsWith (hash : List UInt8 → ℕ) (previous current : ImageView) (area : PixelRect) (stripWidth : ℕ) :
    List Strip :=
  (stripStarts stripWidth (area.x + area.width) (area.x + area.width + 1) area.x).map
    (stripWith hash previous current area stripWidth)

def farthest (config : ScrollDetectorConfig) (area : PixelRect) : ℤ :=
  if config.maxDistance = 0 then area.height - 1 else min config.maxDistance (area.height - 1)

/-- A distance with its votes, which are counted in 32 bits, if it is better
than the best so far. -/
def better (votes : List ℤ) (best : ℤ × ℕ) (distance : ℤ) : ℤ × ℕ :=
  let count := votes.count distance % 2 ^ 32
  let shorter := |distance| < |best.1| ∨ |distance| = |best.1| ∧ distance < best.1
  if count > best.2 ∨ count = best.2 ∧ shorter then (distance, count) else best

/-- The distance with the most votes, from a table gone through in `order`. -/
def winnerOf (votes order : List ℤ) : ℤ × ℕ := order.foldl (better votes) (0, 0)

def groupWidth (group : List Strip) : ℕ := (groupEnd group + 2 ^ 32 - groupX group) % 2 ^ 32

def Best.tryGroup (previous current : ImageView) (area : PixelRect) (config : ScrollDetectorConfig) (dy : ℤ)
    (best : Best) (group : List Strip) : Best :=
  let x := groupX group
  let width := groupWidth group
  if width < config.minWidth then best
  else
    let s := scan (rowMoved previous current area dy group x width) area.height
    if s.bestRun ≥ config.minRows ∧ s.bestRun * width > best.area then
      ⟨some ⟨⟨x, toUnsigned 32 (area.y + s.bestStart - dy), width, s.bestRun⟩, toSigned 32 (toUnsigned 32 dy)⟩,
        s.bestRun * width⟩
    else best

/-- The votes of all strips of an area that is already clipped. -/
def votesWith (hash : List UInt8 → ℕ) (previous current : ImageView) (area : PixelRect)
    (config : ScrollDetectorConfig) : List ℤ :=
  votesOf (stripsWith hash previous current area config.stripWidth) area.height (farthest config area)

def detectInWith (hash : List UInt8 → ℕ) (order : List ℤ) (previous current : ImageView) (area : PixelRect)
    (config : ScrollDetectorConfig) : Option ScrollMove :=
  let strips := stripsWith hash previous current area config.stripWidth
  let (dy, most) := winnerOf (votesWith hash previous current area config) order
  if most < config.minRows then none
  else
    ((goodGroups (good area.height dy) [] strips).foldl (tryGroup previous current area config dy) {}).move

/-- `detect_vertical_scroll`, the table of votes gone through in `order`. -/
def detectWith (hash : List UInt8 → ℕ) (order : List ℤ) (previous current : ImageView) (area : PixelRect)
    (config : ScrollDetectorConfig) : Option ScrollMove :=
  let area := clip area current
  if config.stripWidth = 0 ∨ area.width < max config.minWidth 1 ∨ area.height ≤ config.minRows then none
  else detectInWith hash order previous current area config

/-- An order in which the table of votes may be gone through: every distance once. -/
def IsOrder (hash : List UInt8 → ℕ) (previous current : ImageView) (area : PixelRect) (config : ScrollDetectorConfig)
    (order : List ℤ) : Prop := order.Perm (votesWith hash previous current (clip area current) config).dedup

/-! ### Copying the rows -/

/-- `data` has `height` rows of `width` pixels, `stride` bytes apart. -/
structure Covers (data : List UInt8) (width height stride : ℕ) : Prop where
  stride_le : width * bytesPerPixel ≤ stride
  rows : ∀ y < height, y * stride + width * bytesPerPixel ≤ data.length

/-- Different rows do not meet. -/
theorem rows_apart {stride x width a b : ℕ} (hstride : x * bytesPerPixel + width * bytesPerPixel ≤ stride) (hne : a ≠ b) :
    Windows.Apart (width * bytesPerPixel) (a * stride + x * bytesPerPixel) (b * stride + x * bytesPerPixel) := by
  unfold Windows.Apart
  rcases Nat.lt_or_gt_of_ne hne with hlt | hlt
  · have hnext : (a + 1) * stride ≤ b * stride := Nat.mul_le_mul_right _ hlt
    rw [Nat.succ_mul] at hnext
    exact Or.inl (by omega)
  · have hnext : (b + 1) * stride ≤ a * stride := Nat.mul_le_mul_right _ hlt
    rw [Nat.succ_mul] at hnext
    exact Or.inr (by omega)

/-- What a move needs of an image of `width` by `height` pixels. -/
structure FitsIn (move : ScrollMove) (width height : ℕ) : Prop where
  right_le : move.source.x + move.source.width ≤ width
  source_bottom : move.source.y + move.source.height ≤ height
  destination_bottom : move.destination.y + move.source.height ≤ height
  destination_eq : (move.destination.y : ℤ) = move.source.y + move.dy

/-- Where row `i` of a move begins, at either end. -/
def sourceAt (stride : ℕ) (move : ScrollMove) (i : ℕ) : ℕ :=
  (move.source.y + i) * stride + move.source.x * bytesPerPixel

def destinationAt (stride : ℕ) (move : ScrollMove) (i : ℕ) : ℕ :=
  (move.destination.y + i) * stride + move.source.x * bytesPerPixel

def rowOrder (move : ScrollMove) : List ℕ :=
  if move.dy > 0 then (List.range move.source.height).reverse else List.range move.source.height

theorem mem_rowOrder {move : ScrollMove} {i : ℕ} : i ∈ rowOrder move ↔ i < move.source.height := by
  unfold rowOrder
  split_ifs <;> simp

/-- Rows are gone through away from where the content goes. -/
theorem rowOrder_pairwise (move : ScrollMove) :
    (rowOrder move).Pairwise fun i j => if move.dy > 0 then j < i else i < j := by
  unfold rowOrder
  split_ifs with hdown
  · exact pairwise_reverse.mpr pairwise_lt_range
  · exact pairwise_lt_range

theorem rowOrder_inOrder {move : ScrollMove} {width height stride : ℕ} (hfits : FitsIn move width height)
    (hstride : width * bytesPerPixel ≤ stride) :
    Windows.InOrder (sourceAt stride move) (destinationAt stride move) (move.source.width * bytesPerPixel)
      (rowOrder move) := by
  have hright := hfits.right_le
  have hdestination := hfits.destination_eq
  have hroom : move.source.x * bytesPerPixel + move.source.width * bytesPerPixel ≤ stride := by
    rw [← Nat.add_mul]
    exact (Nat.mul_le_mul_right _ hright).trans hstride
  refine ⟨(rowOrder_pairwise move).imp fun {i j} hij => ?_, (rowOrder_pairwise move).imp fun {i j} hij => ?_⟩
  all_goals
    apply rows_apart hroom
    split_ifs at hij <;> omega

theorem rowOrder_fits {move : ScrollMove} {image : List UInt8} {width height stride : ℕ}
    (hfits : FitsIn move width height) (hcovers : Covers image width height stride) :
    Windows.Fits (sourceAt stride move) (destinationAt stride move) (move.source.width * bytesPerPixel) image.length
      (rowOrder move) := by
  intro i hi
  rw [mem_rowOrder] at hi
  have hright : move.source.x * bytesPerPixel + move.source.width * bytesPerPixel ≤ width * bytesPerPixel := by
    rw [← Nat.add_mul]
    exact Nat.mul_le_mul_right _ hfits.right_le
  have hsource := hcovers.rows (move.source.y + i) (by have := hfits.source_bottom; omega)
  have hdestination := hcovers.rows (move.destination.y + i) (by have := hfits.destination_bottom; omega)
  unfold sourceAt destinationAt
  omega

/-- **The rows of a move** arrive as they were, and nothing else changes. -/
theorem applyScroll_exact {move : ScrollMove} {image : List UInt8} {width height stride : ℕ}
    (hfits : FitsIn move width height) (hcovers : Covers image width height stride) :
    (applyScroll image stride move).length = image.length ∧
    (∀ i < move.source.height, ∀ b < move.source.width * bytesPerPixel,
      (applyScroll image stride move)[destinationAt stride move i + b]? = image[sourceAt stride move i + b]?) ∧
    ∀ p, (∀ i < move.source.height, p < destinationAt stride move i ∨
      destinationAt stride move i + move.source.width * bytesPerPixel ≤ p) →
      (applyScroll image stride move)[p]? = image[p]? := by
  have hwindows := rowOrder_fits hfits hcovers
  have horder := rowOrder_inOrder hfits hcovers.stride_le
  refine ⟨Windows.copied_length hwindows, fun i hi b hb => ?_, fun p hp => ?_⟩
  · exact Windows.copied_get hwindows horder i (mem_rowOrder.mpr hi) b hb
  · exact Windows.copied_get_outside hwindows fun i hi => hp i (mem_rowOrder.mp hi)

/-! ### The table of votes -/

instance (votes : List ℤ) : RightCommutative (better votes) where
  right_comm best d d' := by
    by_cases heq : d = d'
    · rw [heq]
    · unfold better
      generalize votes.count d % 2 ^ 32 = count
      generalize votes.count d' % 2 ^ 32 = count'
      dsimp only
      split_ifs <;> first | rfl | (exfalso; dsimp only at *; omega)

/-- **The order of the table** does not matter. -/
theorem winnerOf_perm (votes : List ℤ) {order order' : List ℤ} (h : order.Perm order') :
    winnerOf votes order = winnerOf votes order' := h.foldl_eq (0, 0)

/-- The best so far: none, or a distance with its votes. -/
def BestVote (votes : List ℤ) (best : ℤ × ℕ) : Prop := best = (0, 0) ∨ (0 < best.2 ∧ best.2 = votes.count best.1 % 2 ^ 32)

theorem BestVote.better {votes : List ℤ} {best : ℤ × ℕ} (h : BestVote votes best) (d : ℤ) :
    BestVote votes (better votes best d) := by
  unfold Scroll.better
  dsimp only
  split_ifs with hbetter
  · refine Or.inr ⟨?_, rfl⟩
    rcases h with rfl | ⟨hpos, -⟩
    · rcases hbetter with hmore | ⟨-, hshort | ⟨hsame, hneg⟩⟩
      · exact hmore
      · exact absurd hshort (by simp)
      · exact absurd hneg (by simp_all)
    · omega
  · exact h

theorem BestVote.foldl {votes : List ℤ} : ∀ (order : List ℤ) {best : ℤ × ℕ}, BestVote votes best →
    BestVote votes (order.foldl (Scroll.better votes) best)
  | [], _, h => h
  | d :: order, _, h => BestVote.foldl order (h.better d)

theorem le_better (votes : List ℤ) (best : ℤ × ℕ) (d : ℤ) :
    best.2 ≤ (better votes best d).2 ∧ votes.count d % 2 ^ 32 ≤ (better votes best d).2 := by
  unfold better
  dsimp only
  split_ifs with hbetter
  · exact ⟨by omega, le_rfl⟩
  · exact ⟨le_rfl, by omega⟩

theorem le_foldl_better (votes : List ℤ) : ∀ (order : List ℤ) (best : ℤ × ℕ),
    best.2 ≤ (order.foldl (better votes) best).2 ∧
      ∀ d ∈ order, votes.count d % 2 ^ 32 ≤ (order.foldl (better votes) best).2
  | [], _ => ⟨le_rfl, fun _ h => absurd h not_mem_nil⟩
  | d :: order, best => by
    obtain ⟨hbest, hd⟩ := le_better votes best d
    obtain ⟨hnext, hrest⟩ := le_foldl_better votes order (better votes best d)
    rw [foldl_cons]
    exact ⟨hbest.trans hnext, forall_mem_cons.mpr ⟨hd.trans hnext, hrest⟩⟩

/-- A distance has votes, as they are counted. -/
def Voted (votes : List ℤ) : Prop := ∃ d, votes.count d % 2 ^ 32 ≠ 0

theorem winnerOf_cases {votes order : List ℤ} (h : order.Perm votes.dedup) :
    (winnerOf votes order = (0, 0) ∧ ¬ Voted votes) ∨
      ((winnerOf votes order).1 ∈ votes ∧ 0 < (winnerOf votes order).2 ∧ Voted votes) := by
  have hall : ∀ d, votes.count d % 2 ^ 32 ≤ (winnerOf votes order).2 := by
    intro d
    by_cases hd : d ∈ votes
    · exact (le_foldl_better votes order (0, 0)).2 d (h.mem_iff.mpr (mem_dedup.mpr hd))
    · rw [count_eq_zero_of_not_mem hd]
      exact Nat.zero_le _
  rcases @BestVote.foldl votes order _ (Or.inl rfl) with hzero | ⟨hpos, hcount⟩
  · refine Or.inl ⟨hzero, fun ⟨d, hd⟩ => hd ?_⟩
    have hmost := hall d
    rw [winnerOf, hzero] at hmost
    exact Nat.le_zero.mp hmost
  · have hvotes : votes.count (winnerOf votes order).1 % 2 ^ 32 ≠ 0 := hcount ▸ hpos.ne'
    refine Or.inr ⟨count_pos_iff.mp ?_, hpos, _, hvotes⟩
    exact Nat.pos_of_ne_zero fun hnone => hvotes (by rw [hnone, Nat.zero_mod])

/-! ### Strips in order -/

/-- No strip begins so far right that the next one starts again. -/
def NoWrap (area : PixelRect) (stripWidth : ℕ) : Prop :=
  ∀ i, i * stripWidth < area.width → area.x + (i + 1) * stripWidth < 2 ^ 32

/-- Strips with pixels inside an area, from left to right. -/
structure InRow (area : PixelRect) (strips : List Strip) : Prop where
  inside : ∀ strip ∈ strips, strip.In area ∧ 0 < strip.width
  sorted : strips.Pairwise fun a b => a.x ≤ b.x

theorem stripStarts_spec {area : PixelRect} {stripWidth : ℕ} (hwrap : NoWrap area stripWidth) :
    ∀ (fuel i : ℕ), (∀ x ∈ stripStarts stripWidth (area.x + area.width) fuel (area.x + i * stripWidth),
        area.x + i * stripWidth ≤ x ∧ x < area.x + area.width) ∧
      (stripStarts stripWidth (area.x + area.width) fuel (area.x + i * stripWidth)).Pairwise (· ≤ ·)
  | 0, i => ⟨fun x hx => absurd hx not_mem_nil, List.Pairwise.nil⟩
  | fuel + 1, i => by
    rw [stripStarts]
    by_cases hlimit : area.x + i * stripWidth < area.x + area.width
    · have hnext := hwrap i (by omega)
      rw [Nat.succ_mul] at hnext
      have hstep : (area.x + i * stripWidth + stripWidth) % 2 ^ 32 = area.x + (i + 1) * stripWidth := by
        rw [Nat.mod_eq_of_lt (by omega), Nat.succ_mul, Nat.add_assoc]
      obtain ⟨hmem, hsorted⟩ := stripStarts_spec hwrap fuel (i + 1)
      have hge : area.x + i * stripWidth ≤ area.x + (i + 1) * stripWidth := by
        omega
      rw [if_pos hlimit, hstep]
      refine ⟨forall_mem_cons.mpr ⟨⟨le_rfl, hlimit⟩, fun x hx => ⟨hge.trans (hmem x hx).1, (hmem x hx).2⟩⟩, ?_⟩
      exact pairwise_cons.mpr ⟨fun x hx => hge.trans (hmem x hx).1, hsorted⟩
    · rw [if_neg hlimit]
      exact ⟨fun x hx => absurd hx not_mem_nil, List.Pairwise.nil⟩

theorem stripsWith_inRow (hash : List UInt8 → ℕ) (previous current : ImageView) {area : PixelRect} {stripWidth : ℕ}
    (hwrap : NoWrap area stripWidth) (hwidth : 0 < stripWidth) :
    InRow area (stripsWith hash previous current area stripWidth) := by
  have hspec := stripStarts_spec hwrap (area.x + area.width + 1) 0
  rw [Nat.zero_mul] at hspec
  obtain ⟨hmem, hsorted⟩ := hspec
  constructor
  · intro strip hstrip
    obtain ⟨x, hx, rfl⟩ := mem_map.mp hstrip
    obtain ⟨hleft, hlimit⟩ := hmem x hx
    refine ⟨⟨hleft, ?_⟩, ?_⟩
    · change x + min stripWidth (area.x + area.width - x) ≤ _
      omega
    · change 0 < min stripWidth (area.x + area.width - x)
      omega
  · exact pairwise_map.mpr hsorted

theorem goodGroups_sublist {isGood : Strip → Bool} : ∀ {strips group : List Strip},
    ∀ g ∈ goodGroups isGood group strips, g.Sublist (group ++ strips)
  | [], group, g, hg => by
    rw [goodGroups] at hg
    split_ifs at hg with hempty
    · exact absurd hg not_mem_nil
    · obtain rfl := mem_singleton.mp hg
      rw [append_nil]
  | strip :: strips, group, g, hg => by
    rw [goodGroups] at hg
    split_ifs at hg with hgood hempty
    · have hsub := goodGroups_sublist g hg
      rwa [append_assoc] at hsub
    · have hsub := goodGroups_sublist g hg
      exact (hsub.trans (sublist_cons_self strip strips)).trans (sublist_append_right group _)
    · rcases mem_append.mp hg with hg | hg
      · obtain rfl := mem_singleton.mp hg
        exact sublist_append_left _ _
      · have hsub := goodGroups_sublist g hg
        exact (hsub.trans (sublist_cons_self strip strips)).trans (sublist_append_right group _)

/-- A group of strips begins left of its end. -/
theorem group_lt {area : PixelRect} {group : List Strip} (h : InRow area group) (hne : group ≠ []) :
    groupX group < groupEnd group ∧ groupEnd group ≤ area.x + area.width := by
  obtain ⟨first, rest, rfl⟩ := exists_cons_of_ne_nil hne
  have hlast := getLast_mem hne
  obtain ⟨hin, hpos⟩ := h.inside _ hlast
  have hle : first.x ≤ ((first :: rest).getLast hne).x := by
    rcases mem_cons.mp hlast with heq | hmem
    · rw [heq]
    · exact (pairwise_cons.mp h.sorted).1 _ hmem
  have hend : groupEnd (first :: rest) = ((first :: rest).getLast hne).x + ((first :: rest).getLast hne).width := by
    rfl
  have hx : groupX (first :: rest) = first.x := rfl
  have hright := hin.2
  omega

theorem groups_inRow {area : PixelRect} {strips : List Strip} (h : InRow area strips) (isGood : Strip → Bool) :
    ∀ group ∈ goodGroups isGood [] strips, group ≠ [] ∧ InRow area group := by
  intro group hgroup
  have hsub := goodGroups_sublist group hgroup
  have hspec := goodGroups_spec (P := fun _ => True) (by simp) (by simp) group hgroup
  exact ⟨hspec.1, fun strip hstrip => h.inside strip (hsub.subset hstrip), h.sorted.sublist hsub⟩

/-! ### No integer wraps around -/

theorem tryGroup_eq {previous current : ImageView} {area : PixelRect} {config : ScrollDetectorConfig} {dy : ℤ}
    {group : List Strip} (hne : group ≠ []) (hrow : InRow area group) (hdy : -(2 ^ 31) ≤ dy ∧ dy < 2 ^ 31)
    (hright : area.x + area.width < 2 ^ 32) (hbottom : area.y + area.height < 2 ^ 32) (best : Best) :
    best.tryGroup previous current area config dy group = best.group previous current area config dy group := by
  obtain ⟨hlt, hend⟩ := group_lt hrow hne
  have hwidth : groupWidth group = groupEnd group - groupX group := by
    unfold groupWidth
    omega
  unfold Best.tryGroup Best.group
  rw [hwidth, toSigned_toUnsigned (w := 31) hdy.1 hdy.2]
  dsimp only
  by_cases hnarrow : groupEnd group - groupX group < config.minWidth
  · rw [if_pos hnarrow, if_pos hnarrow]
  have hscan := scan_sound (rowMoved previous current area dy group (groupX group) (groupEnd group - groupX group))
    area.height
  generalize scan _ area.height = s at *
  by_cases hlarger : s.bestRun ≥ config.minRows ∧ s.bestRun * (groupEnd group - groupX group) > best.area
  · have hrun : 0 < s.bestRun := Nat.pos_of_mul_pos_right (lt_of_le_of_lt (Nat.zero_le _) hlarger.2)
    have htop := source_of_rowMoved hne (hscan.best_ok s.bestStart le_rfl (by omega))
    have hsource : toUnsigned 32 (area.y + s.bestStart - dy) = (area.y + s.bestStart - dy).toNat := by
      unfold toUnsigned
      rw [Int.emod_eq_of_lt (by omega) (by omega)]
    rw [if_pos hlarger, if_pos hlarger, hsource]
  · rw [if_neg hlarger, if_neg hlarger]

/-- A distance that has a vote. -/
theorem vote_range {strips : List Strip} {rows : ℕ} {maxDistance d : ℤ} (h : d ∈ votesOf strips rows maxDistance) :
    d ≠ 0 ∧ |d| ≤ maxDistance := by
  obtain ⟨strip, -, hrow⟩ := mem_flatMap.mp h
  obtain ⟨row, -, hvote⟩ := mem_filterMap.mp hrow
  unfold vote at hvote
  dsimp only at hvote
  split_ifs at hvote with hquiet hfar
  obtain rfl := Option.some.inj hvote
  exact hfar

/-! ### What a group gives -/

/-- A move by `dy` of the wanted size, equal byte by byte at both ends. -/
structure Verified (previous current : ImageView) (config : ScrollDetectorConfig) (dy : ℤ) (move : ScrollMove) :
    Prop where
  dy_eq : move.dy = dy
  destination_eq : (move.destination.y : ℤ) = move.source.y + move.dy
  width_le : config.minWidth ≤ move.source.width
  rows_le : config.minRows ≤ move.source.height
  equal : ∀ i < move.source.height,
    rowBytes current (move.destination.y + i) move.source.x move.source.width =
      rowBytes previous (move.source.y + i) move.source.x move.source.width

variable {previous current : ImageView} {area : PixelRect} {config : ScrollDetectorConfig} {dy : ℤ}

theorem Best.group_verified {best : Best} {group : List Strip} (hne : group ≠ [])
    (hbest : ∀ move, best.move = some move → Verified previous current config dy move) :
    ∀ move, (best.group previous current area config dy group).move = some move →
      Verified previous current config dy move := by
  intro move hmove
  unfold Best.group at hmove
  by_cases hnarrow : groupEnd group - groupX group < config.minWidth
  · rw [if_pos hnarrow] at hmove
    exact hbest move hmove
  rw [if_neg hnarrow] at hmove
  have hscan := scan_sound (rowMoved previous current area dy group (groupX group) (groupEnd group - groupX group))
    area.height
  generalize scan _ area.height = s at *
  by_cases hlarger : s.bestRun ≥ config.minRows ∧ s.bestRun * (groupEnd group - groupX group) > best.area
  · rw [if_pos hlarger] at hmove
    obtain rfl := Option.some.inj hmove
    have hrun : 0 < s.bestRun := Nat.pos_of_mul_pos_right (lt_of_le_of_lt (Nat.zero_le _) hlarger.2)
    have hfirst := source_of_rowMoved hne (hscan.best_ok s.bestStart le_rfl (by omega))
    refine ⟨rfl, ?_, not_lt.mp hnarrow, hlarger.1, fun i hi => ?_⟩
    · change ((((area.y + s.bestStart - dy).toNat + dy).toNat : ℕ) : ℤ) = ((area.y + s.bestStart - dy).toNat : ℤ) + dy
      omega
    have hok := hscan.best_ok (s.bestStart + i) (Nat.le_add_right _ _) (Nat.add_lt_add_left hi _)
    have hrows : rowBytes current (area.y + (s.bestStart + i)) (groupX group) (groupEnd group - groupX group) =
        rowBytes previous (area.y + (s.bestStart + i : ℕ) - dy).toNat (groupX group)
          (groupEnd group - groupX group) := by
      unfold rowMoved at hok
      exact eq_of_beq (Bool.and_eq_true_iff.mp hok).2
    have hsource : (area.y + (s.bestStart + i : ℕ) - dy).toNat = (area.y + s.bestStart - dy).toNat + i := by omega
    have hdestination : ((area.y + s.bestStart - dy).toNat + dy).toNat + i = area.y + (s.bestStart + i) := by omega
    change rowBytes current (((area.y + s.bestStart - dy).toNat + dy).toNat + i) _ _ = _
    rw [hdestination, hrows, hsource]
  · rw [if_neg hlarger] at hmove
    exact hbest move hmove

theorem foldl_group_verified : ∀ {groups : List (List Strip)} {best : Best}, (∀ group ∈ groups, group ≠ []) →
    (∀ move, best.move = some move → Verified previous current config dy move) →
    ∀ move, (groups.foldl (group previous current area config dy) best).move = some move →
      Verified previous current config dy move
  | [], _, _, hbest => hbest
  | group :: groups, best, hgroups, hbest => by
    obtain ⟨hne, hrest⟩ := forall_mem_cons.mp hgroups
    rw [foldl_cons]
    exact foldl_group_verified hrest (group_verified hne hbest)

/-- A run is found where a row is. -/
theorem scan_pos (ok : ℕ → Bool) : ∀ rows : ℕ, 0 < (scan ok rows).bestRun ↔ ∃ row < rows, ok row = true := by
  intro rows
  constructor
  · intro hpos
    have hsound := scan_sound ok rows
    have hbound := hsound.best_le
    exact ⟨_, by omega, hsound.best_ok _ le_rfl (Nat.lt_add_of_pos_right hpos)⟩
  · rintro ⟨row, hrow, hok⟩
    induction rows with
    | zero => exact absurd hrow (Nat.not_lt_zero row)
    | succ n ih =>
      have hstep : scan ok (n + 1) = (scan ok n).row ok n := by
        unfold scan
        rw [range_succ, foldl_append]
        rfl
      rw [hstep]
      unfold Scan.row
      by_cases hn : ok n = true
      · simp only [hn, Bool.not_true, Bool.false_eq_true, if_false]
        split_ifs <;> dsimp only <;> omega
      · rw [Bool.not_eq_true] at hn
        simp only [hn]
        have hlt : row ≠ n := fun heq => by
          rw [heq, hn] at hok
          cases hok
        exact ih (by omega)

/-- A group with a row that moved by `dy`, wide enough to be looked at. -/
def GroupMoved (previous current : ImageView) (area : PixelRect) (config : ScrollDetectorConfig) (dy : ℤ)
    (group : List Strip) : Prop :=
  config.minWidth ≤ groupEnd group - groupX group ∧ ∃ row < area.height,
    rowMoved previous current area dy group (groupX group) (groupEnd group - groupX group) row = true

/-- Without a smallest number of rows, a move is found when a group has one,
or there is one already. -/
theorem Best.group_isSome {best : Best} {group : List Strip} (hrows : config.minRows = 0)
    (hwidth : groupX group < groupEnd group) (hbest : best.move = none → best.area = 0) :
    ((best.group previous current area config dy group).move = none ↔
      best.move = none ∧ ¬ GroupMoved previous current area config dy group) ∧
      ((best.group previous current area config dy group).move = none →
        (best.group previous current area config dy group).area = 0) := by
  have hfound := scan_pos (rowMoved previous current area dy group (groupX group) (groupEnd group - groupX group))
  unfold Best.group GroupMoved
  by_cases hnarrow : groupEnd group - groupX group < config.minWidth
  · rw [if_pos hnarrow]
    exact ⟨⟨fun h => ⟨h, fun hmoved => absurd hmoved.1 (not_le.mpr hnarrow)⟩, fun h => h.1⟩, hbest⟩
  rw [if_neg hnarrow, hrows]
  rw [← hfound]
  generalize scan _ area.height = s
  by_cases hlarger : s.bestRun ≥ 0 ∧ s.bestRun * (groupEnd group - groupX group) > best.area
  · rw [if_pos hlarger]
    have hrun : 0 < s.bestRun := Nat.pos_of_mul_pos_right (lt_of_le_of_lt (Nat.zero_le _) hlarger.2)
    exact ⟨⟨fun h => (by cases h), fun h => absurd ⟨not_lt.mp hnarrow, hrun⟩ h.2⟩, fun h => (by cases h)⟩
  · rw [if_neg hlarger]
    refine ⟨⟨fun h => ⟨h, fun hmoved => hlarger ⟨Nat.zero_le _, ?_⟩⟩, fun h => h.1⟩, hbest⟩
    rw [hbest h]
    exact Nat.mul_pos hmoved.2 (by omega)

theorem foldl_group_none (hrows : config.minRows = 0) : ∀ {groups : List (List Strip)} {best : Best},
    (∀ group ∈ groups, groupX group < groupEnd group) → (best.move = none → best.area = 0) →
    ((groups.foldl (group previous current area config dy) best).move = none ↔
      best.move = none ∧ ∀ group ∈ groups, ¬ GroupMoved previous current area config dy group)
  | [], _, _, _ => by simp
  | group :: groups, best, hgroups, hbest => by
    obtain ⟨hwidth, hrest⟩ := forall_mem_cons.mp hgroups
    obtain ⟨hsome, harea⟩ := @Best.group_isSome previous current area config dy best group hrows hwidth hbest
    rw [foldl_cons, foldl_group_none hrows hrest harea, hsome, forall_mem_cons, and_assoc]

/-! ### A real move -/

/-- The clipped area is large enough to be searched. -/
structure Searched (area : PixelRect) (config : ScrollDetectorConfig) : Prop where
  width : max config.minWidth 1 ≤ area.width
  rows : config.minRows < area.height

/-- Frames of one size, and a distance and strips whose numbers fit their
integers where they are searched for. -/
structure Inputs (previous current : ImageView) (area : PixelRect) (config : ScrollDetectorConfig) : Prop where
  width_eq : previous.width = current.width
  height_eq : previous.height = current.height
  width_lt : current.width < 2 ^ 32
  height_lt : current.height < 2 ^ 32
  strip_pos : 1 ≤ config.stripWidth
  noWrap : Searched (clip area current) config → NoWrap (clip area current) config.stripWidth
  distance_lt : Searched (clip area current) config → farthest config (clip area current) < 2 ^ 31

/-- Byte `c` of row `r` is in the destination. -/
structure InDestination (move : ScrollMove) (r c : ℕ) : Prop where
  top_le : move.destination.y ≤ r
  lt_bottom : r < move.destination.y + move.source.height
  left_le : move.source.x * bytesPerPixel ≤ c
  lt_right : c < (move.source.x + move.source.width) * bytesPerPixel

/-- A buffer with the pixels of a frame, in rows of any stride. -/
structure CopyOf (previous : ImageView) (buffer : List UInt8) (stride : ℕ) : Prop
    extends Covers buffer previous.width previous.height stride where
  same : ∀ r < previous.height, ∀ c < previous.width * bytesPerPixel,
    buffer[r * stride + c]? = previous.data[r * previous.stride + c]?

/-- The move gives the new frame where it goes, and leaves everything else. -/
structure Applied (current : ImageView) (move : ScrollMove) (buffer : List UInt8) (stride : ℕ) : Prop where
  length : (applyScroll buffer stride move).length = buffer.length
  arrives : ∀ r c, InDestination move r c →
    (applyScroll buffer stride move)[r * stride + c]? = current.data[r * current.stride + c]?
  stays : ∀ p, (∀ r c, InDestination move r c → p ≠ r * stride + c) →
    (applyScroll buffer stride move)[p]? = buffer[p]?

/-- **A real move.** -/
structure Real (previous current : ImageView) (area : PixelRect) (config : ScrollDetectorConfig) (move : ScrollMove) :
    Prop where
  dy_ne : move.dy ≠ 0
  inside : MovesIn (clip area current) move
  destination_eq : (move.destination.y : ℤ) = move.source.y + move.dy
  width_le : config.minWidth ≤ move.source.width
  rows_le : config.minRows ≤ move.source.height
  applied : ∀ buffer stride, CopyOf previous buffer stride → Applied current move buffer stride

theorem getElem?_rowBytes (image : ImageView) {y x width b : ℕ} (hb : b < width * bytesPerPixel) :
    (rowBytes image y x width)[b]? = image.data[y * image.stride + x * bytesPerPixel + b]? := by
  rw [rowBytes, getElem?_take_of_lt hb, getElem?_drop]

theorem MovesIn.fitsIn {area : PixelRect} {move : ScrollMove} {width height : ℕ} (h : MovesIn area move)
    (hright : area.x + area.width ≤ width) (hbottom : area.y + area.height ≤ height)
    (hdestination : (move.destination.y : ℤ) = move.source.y + move.dy) : FitsIn move width height := by
  obtain ⟨-, -, -, hright', -, hsource, -, hdestination'⟩ := h
  exact ⟨by omega, by omega, by omega, hdestination⟩

/-- A verified move inside the frame, applied. -/
theorem applied_of_verified {config : ScrollDetectorConfig} {dy : ℤ} {move : ScrollMove} {buffer : List UInt8}
    {stride : ℕ} (hfits : FitsIn move previous.width previous.height)
    (hverified : Verified previous current config dy move) (hcopy : CopyOf previous buffer stride) :
    Applied current move buffer stride := by
  obtain ⟨hlength, harrives, hstays⟩ := applyScroll_exact hfits hcopy.toCovers
  have hright : (move.source.x + move.source.width) * bytesPerPixel ≤ previous.width * bytesPerPixel :=
    Nat.mul_le_mul_right _ hfits.right_le
  refine ⟨hlength, fun r c hin => ?_, fun p hp => hstays p fun i hi => ?_⟩
  · obtain ⟨htop, hbottom, hleft, hend⟩ := hin
    obtain ⟨i, rfl⟩ := Nat.exists_eq_add_of_le htop
    obtain ⟨b, rfl⟩ := Nat.exists_eq_add_of_le hleft
    rw [Nat.add_mul] at hend hright
    have hi : i < move.source.height := by omega
    have hb : b < move.source.width * bytesPerPixel := by omega
    have hrow := congrArg (fun row => row[b]?) (hverified.equal i hi)
    rw [getElem?_rowBytes current hb, getElem?_rowBytes previous hb] at hrow
    have hsource := hcopy.same (move.source.y + i) (by have := hfits.source_bottom; omega)
      (move.source.x * bytesPerPixel + b) (by omega)
    have harrive := harrives i hi b hb
    unfold destinationAt sourceAt at harrive
    simp only [← Nat.add_assoc] at hsource hrow harrive ⊢
    rw [harrive, hsource, hrow]
  · by_contra hmeet
    have hle : destinationAt stride move i ≤ p := by omega
    obtain ⟨b, rfl⟩ := Nat.exists_eq_add_of_le hle
    refine hp (move.destination.y + i) (move.source.x * bytesPerPixel + b) ?_ (Nat.add_assoc _ _ _)
    exact ⟨Nat.le_add_right _ _, by omega, Nat.le_add_right _ _, by rw [Nat.add_mul]; omega⟩

/-! ### When a detected move is one -/

variable {hash : List UInt8 → ℕ}

/-- The groups of strips that did not move, as they count for moves. -/
def stillGroups (hash : List UInt8 → ℕ) (previous current : ImageView) (area : PixelRect)
    (config : ScrollDetectorConfig) : List (List Strip) :=
  goodGroups (good area.height 0) [] (stripsWith hash previous current area config.stripWidth)

/-- A row that did not move either, across a group that is wide enough. -/
def StandsStill (hash : List UInt8 → ℕ) (previous current : ImageView) (area : PixelRect)
    (config : ScrollDetectorConfig) : Prop :=
  ∃ group ∈ stillGroups hash previous current area config, GroupMoved previous current area config 0 group

/-- Whatever is found is a real move, and it is the same in every order of the table. -/
def Sensible (hash : List UInt8 → ℕ) (previous current : ImageView) (area : PixelRect)
    (config : ScrollDetectorConfig) : Prop :=
  (∀ order move, IsOrder hash previous current area config order →
    detectWith hash order previous current area config = some move → Real previous current area config move) ∧
  ∀ order order', IsOrder hash previous current area config order → IsOrder hash previous current area config order' →
    detectWith hash order previous current area config = detectWith hash order' previous current area config

theorem detectWith_order {order order' : List ℤ} (h : IsOrder hash previous current area config order)
    (h' : IsOrder hash previous current area config order') :
    detectWith hash order previous current area config = detectWith hash order' previous current area config := by
  unfold detectWith detectInWith
  dsimp only
  rw [winnerOf_perm _ (h.trans h'.symm)]

theorem clip_le (area : PixelRect) (image : ImageView) :
    (clip area image).x + (clip area image).width ≤ image.width ∧
      (clip area image).y + (clip area image).height ≤ image.height := by
  unfold clip
  dsimp only
  omega

theorem detectWith_none (hs : ¬ Searched (clip area current) config) (order : List ℤ) :
    detectWith hash order previous current area config = none := by
  unfold detectWith
  rw [if_pos]
  by_contra hnot
  push Not at hnot
  exact hs ⟨hnot.2.1, hnot.2.2⟩

/-- No group makes an integer wrap around. -/
theorem foldl_tryGroup_eq (hin : Inputs previous current area config)
    (hs : Searched (clip area current) config) {dy : ℤ} (hdy : -(2 ^ 31) ≤ dy ∧ dy < 2 ^ 31) (best : Best) :
    (goodGroups (good (clip area current).height dy) []
      (stripsWith hash previous current (clip area current) config.stripWidth)).foldl
        (tryGroup previous current (clip area current) config dy) best =
    (goodGroups (good (clip area current).height dy) []
      (stripsWith hash previous current (clip area current) config.stripWidth)).foldl
        (group previous current (clip area current) config dy) best := by
  have hclip := clip_le area current
  have hwidth := hin.width_lt
  have hheight := hin.height_lt
  have hstrips := stripsWith_inRow hash previous current (hin.noWrap hs) hin.strip_pos
  refine foldl_ext _ _ _ fun best group hgroup => ?_
  obtain ⟨hne, hrow⟩ := groups_inRow hstrips _ group hgroup
  exact tryGroup_eq hne hrow hdy (by omega) (by omega) best

/-- What is left of detection when nothing wraps around. -/
theorem detectWith_eq (hin : Inputs previous current area config)
    (hs : Searched (clip area current) config) {order : List ℤ} {dy : ℤ} {most : ℕ}
    (hwinner : winnerOf (votesWith hash previous current (clip area current) config) order = (dy, most))
    (hdy : -(2 ^ 31) ≤ dy ∧ dy < 2 ^ 31) :
    detectWith hash order previous current area config =
      if most < config.minRows then none
      else
        ((goodGroups (good (clip area current).height dy) []
          (stripsWith hash previous current (clip area current) config.stripWidth)).foldl
            (group previous current (clip area current) config dy) {}).move := by
  have hstrip : config.stripWidth ≠ 0 := Nat.pos_iff_ne_zero.mp hin.strip_pos
  have hlarge : ¬ (config.stripWidth = 0 ∨ (clip area current).width < max config.minWidth 1 ∨
      (clip area current).height ≤ config.minRows) := by
    have hwidth := hs.width
    have hrows := hs.rows
    omega
  unfold detectWith detectInWith
  dsimp only
  rw [hwinner, foldl_tryGroup_eq hin hs hdy, if_neg hlarge]

theorem winner_range (hin : Inputs previous current area config)
    (hs : Searched (clip area current) config) {dy : ℤ}
    (h : dy ∈ votesWith hash previous current (clip area current) config) : dy ≠ 0 ∧ -(2 ^ 31) ≤ dy ∧ dy < 2 ^ 31 := by
  obtain ⟨hne, hfar⟩ := vote_range h
  obtain ⟨hlo, hhi⟩ := abs_le.mp hfar
  have hlt := hin.distance_lt hs
  exact ⟨hne, by omega, by omega⟩

/-- **What is found** at a distance other than none is a real move. -/
theorem detectWith_exact (hin : Inputs previous current area config)
    (hs : Searched (clip area current) config) {order : List ℤ} {dy : ℤ} {most : ℕ}
    (hwinner : winnerOf (votesWith hash previous current (clip area current) config) order = (dy, most))
    (hdy : dy ≠ 0 ∧ -(2 ^ 31) ≤ dy ∧ dy < 2 ^ 31) {move : ScrollMove}
    (h : detectWith hash order previous current area config = some move) :
    Real previous current area config move := by
  rw [detectWith_eq hin hs hwinner hdy.2] at h
  split_ifs at h
  have hrow := stripsWith_inRow hash previous current (hin.noWrap hs) hin.strip_pos
  have hgroups := groups_inRow hrow (good (clip area current).height dy)
  have hinside := foldl_group_in (fun g hg => ⟨(hgroups g hg).1, fun s hs => ((hgroups g hg).2.inside s hs).1⟩)
    (by simp) move h
  have hverified := foldl_group_verified (fun g hg => (hgroups g hg).1) (by simp) move h
  have hclip := clip_le area current
  have hfits : FitsIn move previous.width previous.height := by
    rw [hin.width_eq, hin.height_eq]
    exact hinside.fitsIn hclip.1 hclip.2 hverified.destination_eq
  exact
    { dy_ne := hverified.dy_eq ▸ hdy.1
      inside := hinside
      destination_eq := hverified.destination_eq
      width_le := hverified.width_le
      rows_le := hverified.rows_le
      applied := fun buffer stride hcopy => applied_of_verified hfits hverified hcopy }

/-- Without votes and without a smallest number of rows, a move is found where
something stands still. -/
theorem detectWith_still (hin : Inputs previous current area config)
    (hs : Searched (clip area current) config) {order : List ℤ}
    (hwinner : winnerOf (votesWith hash previous current (clip area current) config) order = (0, 0))
    (hrows : config.minRows = 0) :
    detectWith hash order previous current area config = none ↔
      ¬ StandsStill hash previous current (clip area current) config := by
  have hrow := stripsWith_inRow hash previous current (hin.noWrap hs) hin.strip_pos
  have hlt : ∀ group ∈ stillGroups hash previous current (clip area current) config,
      groupX group < groupEnd group := by
    intro group hgroup
    obtain ⟨hne, hin'⟩ := groups_inRow hrow (good (clip area current).height 0) group hgroup
    exact (group_lt hin' hne).1
  have hnone := @foldl_group_none previous current (clip area current) config 0 hrows _ {} hlt fun _ => rfl
  rw [detectWith_eq hin hs hwinner ⟨by decide, by decide⟩, if_neg (by omega)]
  refine hnone.trans ⟨fun h => ?_, fun h => ⟨rfl, fun group hgroup hmoved => h ⟨group, hgroup, hmoved⟩⟩⟩
  rintro ⟨group, hgroup, hmoved⟩
  exact h.2 group hgroup hmoved

/-- **When a detected move is one**: when the area is too small to be
searched, with a smallest number of rows, or when a row votes for a distance,
or when nothing stands still. Else something that did not move is found, as a
move by no distance. -/
theorem detect_real_iff (hin : Inputs previous current area config) :
    Sensible hash previous current area config ↔
      ¬ Searched (clip area current) config ∨ config.minRows ≠ 0 ∨
        Voted (votesWith hash previous current (clip area current) config) ∨
          ¬ StandsStill hash previous current (clip area current) config := by
  by_cases hs : Searched (clip area current) config
  swap
  · refine ⟨fun _ => .inl hs, fun _ => ⟨fun order move _ hmove => ?_, fun order order' h h' => detectWith_order h h'⟩⟩
    rw [detectWith_none hs] at hmove
    cases hmove
  constructor
  · rintro ⟨hreal, -⟩
    by_contra hnot
    push Not at hnot
    obtain ⟨-, hrows, hquiet, hstill⟩ := hnot
    have horder : IsOrder hash previous current area config
      (votesWith hash previous current (clip area current) config).dedup := List.Perm.refl _
    rcases winnerOf_cases horder with ⟨hwinner, -⟩ | ⟨-, -, hvoted⟩
    · have hfound := (not_congr (detectWith_still hin hs hwinner hrows)).mpr (not_not.mpr hstill)
      obtain ⟨move, hmove⟩ := Option.ne_none_iff_exists'.mp hfound
      have hne := (hreal _ move horder hmove).dy_ne
      rw [detectWith_eq hin hs hwinner ⟨by decide, by decide⟩] at hmove
      split_ifs at hmove
      have hrow := stripsWith_inRow hash previous current (hin.noWrap hs) hin.strip_pos
      have hverified := foldl_group_verified (fun g hg => (groups_inRow hrow _ g hg).1) (by simp) move hmove
      exact hne hverified.dy_eq
    · exact hquiet hvoted
  · intro hcondition
    refine ⟨fun order move horder hmove => ?_, fun order order' h h' => detectWith_order h h'⟩
    rcases winnerOf_cases horder with ⟨hwinner, hquiet⟩ | ⟨hmem, -, -⟩
    · exfalso
      by_cases hrows : config.minRows = 0
      · have hstill : ¬ StandsStill hash previous current (clip area current) config := by tauto
        rw [(detectWith_still hin hs hwinner hrows).mpr hstill] at hmove
        cases hmove
      · rw [detectWith_eq hin hs hwinner ⟨by decide, by decide⟩, if_pos (by omega)] at hmove
        cases hmove
    · exact detectWith_exact hin hs rfl (winner_range hin hs hmem) hmove

/-- A frame of one column: three rows, then the same one row up. -/
def rowsBefore : ImageView := ⟨[1, 0, 0, 0, 2, 0, 0, 0, 3, 0, 0, 0], 1, 3, 4⟩
def rowsAfter : ImageView := ⟨[2, 0, 0, 0, 3, 0, 0, 0, 4, 0, 0, 0], 1, 3, 4⟩

theorem detect_real_iff_rows :
    detectWith hashRow [-1] rowsBefore rowsAfter ⟨0, 0, 1, 3⟩ { minRows := 1, minWidth := 1 } =
      some ⟨⟨0, 1, 1, 2⟩, -1⟩ ∧
    Real rowsBefore rowsAfter ⟨0, 0, 1, 3⟩ { minRows := 1, minWidth := 1 } ⟨⟨0, 1, 1, 2⟩, -1⟩ := by
  have hin : Inputs rowsBefore rowsAfter ⟨0, 0, 1, 3⟩ { minRows := 1, minWidth := 1 } := by
    refine ⟨rfl, rfl, by decide, by decide, by decide, fun _ i hi => ?_, fun _ => by decide⟩
    change i * 64 < 1 at hi
    change 0 + (i + 1) * 64 < 2 ^ 32
    omega
  have hmove : detectWith hashRow [-1] rowsBefore rowsAfter ⟨0, 0, 1, 3⟩ { minRows := 1, minWidth := 1 } =
      some ⟨⟨0, 1, 1, 2⟩, -1⟩ := by decide
  have horder : IsOrder hashRow rowsBefore rowsAfter ⟨0, 0, 1, 3⟩ { minRows := 1, minWidth := 1 } [-1] := by
    unfold IsOrder
    decide
  exact ⟨hmove, ((detect_real_iff hin).mpr (Or.inr (Or.inl (by decide)))).1 _ _ horder hmove⟩

def onePixel : ImageView := ⟨[1, 2, 3, 4], 1, 1, 4⟩

/-- Without a smallest number of rows, two frames that are the same give a
move by no distance. -/
theorem identical_frames_move :
    detectWith hashRow [] onePixel onePixel ⟨0, 0, 1, 1⟩ { minRows := 0, minWidth := 1 } = some ⟨⟨0, 0, 1, 1⟩, 0⟩ ∧
    ¬ Sensible hashRow onePixel onePixel ⟨0, 0, 1, 1⟩ { minRows := 0, minWidth := 1 } := by
  have hmove : detectWith hashRow [] onePixel onePixel ⟨0, 0, 1, 1⟩ { minRows := 0, minWidth := 1 } =
      some ⟨⟨0, 0, 1, 1⟩, 0⟩ := by decide
  have horder : IsOrder hashRow onePixel onePixel ⟨0, 0, 1, 1⟩ { minRows := 0, minWidth := 1 } [] := by
    unfold IsOrder
    decide
  exact ⟨hmove, fun hsensible => (hsensible.1 _ _ horder hmove).dy_ne rfl⟩

end Scroll
end Server
end Farland
