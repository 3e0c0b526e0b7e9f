/-
# The client's screen is the frame

Any run of `encode`, `invalidate` and `invalidate_all` calls, and a client that
starts with any pixels and paints what it gets. What is not dirty is on the
client's screen as the encoder remembers it (`InStep`), so that after an encode,
with every changed and dirty tile painted, the screen shows the frame.

An encode can fail in one way: more rectangles go into an update than it can
count, because the limit is one of bytes only. That takes a limit beyond what
a connection has and a desktop of more than 65535 tiles.

Key theorems: **`serves_iff`**, `meets_of_tiles`.
-/
import Farland.Server.BitmapClient

namespace Farland
namespace Server
namespace FrameEncoder

open List

open Codec.Clear (ImageView)
open Codec Proto.Bitmap BitmapClient

/-! ### Runs -/

inductive Call where
  | encode (frame : ImageView) (maxUpdateSize : ℕ)
  | invalidate (area : Rectangle16)
  | invalidateAll
  deriving DecidableEq

variable (setup : Setup)

/-- What a caller may ask for. -/
def Call.Valid : Call → Prop
  | .encode frame maxUpdateSize => Fitting setup frame ∧ HoldsTiles setup frame maxUpdateSize
  | .invalidate _ | .invalidateAll => True

/-- An area that covers a pixel of a tile. -/
def Touches (area : Rectangle16) (t : ℕ × ℕ) : Prop :=
  ∃ x y, (area.left ≤ x ∧ x ≤ area.right) ∧ (area.top ≤ y ∧ y ≤ area.bottom) ∧ (x / tileSize, y / tileSize) = t

/-- Whether a byte of a tile differs. -/
def TileDiffers (last frame : ImageView) (t : ℕ × ℕ) : Prop :=
  ∃ x y c, (x < setup.width ∧ y < setup.height ∧ c < bytesPerSourcePixel) ∧ (x / tileSize, y / tileSize) = t ∧
    Planar.sample last x y c ≠ Planar.sample frame x y c

/-- An encoder and its client. -/
structure Session where
  encoder : FrameEncoder
  screen : Picture
  /-- The last frame encoded. -/
  last : Option ImageView
  /-- The tiles invalidated since. -/
  invalidated : Set (ℕ × ℕ)

def Session.start (screen : Picture) : Session where
  encoder := new setup
  screen := screen
  last := none
  invalidated := ∅

/-- What an encode does for the client. -/
structure Served (c : Session) (frame : ImageView) (updates : List (List UInt8)) (screen : Picture) : Prop where
  received : receive updates c.screen = some screen
  shows : ∀ x y, x < c.encoder.setup.width → y < c.encoder.setup.height → screen x y = frameColor frame x y
  inside : ∀ rect, InUpdates updates rect → rect.destLeft ≤ rect.destRight ∧ rect.destRight < c.encoder.setup.width ∧
    rect.destTop ≤ rect.destBottom ∧ rect.destBottom < c.encoder.setup.height
  needed : ∀ last, c.last = some last → ∀ rect, InUpdates updates rect → ∃ t, RectOf c.encoder.setup t rect ∧
    (t ∈ c.invalidated ∨ TileDiffers c.encoder.setup last frame t)

/-- Every encode of a run serves the client. -/
def Serves : Session → List Call → Prop
  | _, [] => True
  | c, .encode frame maxUpdateSize :: calls => ∃ updates encoder screen,
      c.encoder.encode frame maxUpdateSize = some (updates, encoder) ∧ Served c frame updates screen ∧
        Serves { encoder, screen, last := some frame, invalidated := ∅ } calls
  | c, .invalidate area :: calls =>
      Serves { c with encoder := c.encoder.invalidate area, invalidated := c.invalidated ∪ {t | Touches area t} } calls
  | c, .invalidateAll :: calls =>
      Serves { c with encoder := c.encoder.invalidateAll, invalidated := Set.univ } calls

/-- What the client needs of a frame: every tile of the first one, then those
that were invalidated or differ. -/
def Owed (last : Option ImageView) (invalidated : Set (ℕ × ℕ)) (frame : ImageView) (t : ℕ × ℕ) : Prop :=
  ∀ before, last = some before → t ∈ invalidated ∨ TileDiffers setup before frame t

open Classical in
noncomputable def owedTiles (last : Option ImageView) (invalidated : Set (ℕ × ℕ)) (frame : ImageView) :
    List (ℕ × ℕ) := setup.tiles.filter fun t => Owed setup last invalidated frame t

/-- No frame of a run needs an overfull update: what it needs is known from
the frame before it and from the areas invalidated since. -/
def Meets (setup : Setup) : Option ImageView → Set (ℕ × ℕ) → List Call → Prop
  | _, _, [] => True
  | last, invalidated, .encode frame maxUpdateSize :: calls =>
      Countable maxUpdateSize 0 updateHeaderSize
        ((owedTiles setup last invalidated frame).map (tileBytes setup frame)) ∧
          Meets setup (some frame) ∅ calls
  | last, invalidated, .invalidate area :: calls => Meets setup last (invalidated ∪ {t | Touches area t}) calls
  | last, _, .invalidateAll :: calls => Meets setup last Set.univ calls

/-! ### What is marked dirty -/

section

variable {s : FrameEncoder} {c : Session} {frame : ImageView} {t : ℕ × ℕ} {maxUpdateSize : ℕ} {area : Rectangle16}

theorem new_sized (setup : Setup) : Sized (new setup) where
  previous := by
    change (List.replicate _ _).length = setup.height * (setup.width * bytesPerSourcePixel)
    rw [length_replicate, mul_comm setup.width, mul_assoc]
  dirty := by
    change (List.replicate _ _).length = setup.tilesY * setup.tilesX
    rw [length_replicate, mul_comm]

theorem getD_all_true {l : List Bool} {i : ℕ} (hi : i < l.length) : (l.map fun _ => true).getD i false = true := by
  rw [getD_eq_getElem?_getD, getElem?_map, getElem?_eq_getElem hi]
  rfl

variable {setup : Setup}

theorem new_isDirty (ht : IsTile setup t) : (new setup).isDirty t = true := by
  have hplace := place_lt ht
  rw [mul_comm setup.tilesY] at hplace
  change (List.replicate _ true).getD (t.2 * setup.tilesX + t.1) false = true
  rw [getD_eq_getElem?_getD, getElem?_replicate_of_lt hplace]
  rfl

theorem invalidateAll_isDirty (hs : Sized s) (ht : IsTile s.setup t) : s.invalidateAll.isDirty t = true := by
  apply getD_all_true
  rw [hs.dirty]
  exact place_lt ht

theorem markDirty_length (setup : Setup) : ∀ (tiles : List (ℕ × ℕ)) (dirty : List Bool),
    (markDirty setup dirty tiles).length = dirty.length
  | [], _ => rfl
  | (tx, ty) :: tiles, dirty => by
    rw [markDirty, markDirty_length setup tiles, length_set]

/-- The marks of some tiles, and the others. -/
theorem getD_markDirty (ht : IsTile setup t) : ∀ (tiles : List (ℕ × ℕ)) (dirty : List Bool),
    (∀ t ∈ tiles, IsTile setup t) → dirty.length = setup.tilesY * setup.tilesX →
      (markDirty setup dirty tiles).getD (t.2 * setup.tilesX + t.1) false =
        (decide (t ∈ tiles) || dirty.getD (t.2 * setup.tilesX + t.1) false)
  | [], dirty, _, _ => by simp [markDirty]
  | first :: tiles, dirty, htiles, hlength => by
    have hfirst := htiles first mem_cons_self
    have hplace : first.2 * setup.tilesX + first.1 < dirty.length := by
      rw [hlength]
      exact place_lt hfirst
    have hset : (dirty.set (first.2 * setup.tilesX + first.1) true).length = setup.tilesY * setup.tilesX := by
      rw [length_set, hlength]
    have hrest := getD_markDirty ht tiles _ (fun t ht => htiles t (mem_cons_of_mem _ ht)) hset
    rw [markDirty, hrest, getD_set hplace]
    by_cases heq : t = first
    · subst heq
      simp
    · have hne : first.2 * setup.tilesX + first.1 ≠ t.2 * setup.tilesX + t.1 := by
        intro hsame
        obtain ⟨hrow, hcol⟩ := (Rows.place_eq_iff hfirst.1 ht.1).mp hsame
        exact heq (Prod.ext hcol.symm hrow.symm)
      rw [if_neg hne]
      simp [heq]

theorem covered_iff (area : Rectangle16) (ht : IsTile setup t) :
    covered setup area t.1 t.2 = true ↔ (area.left / tileSize ≤ t.1 ∧ t.1 ≤ area.right / tileSize) ∧
      area.top / tileSize ≤ t.2 ∧ t.2 ≤ area.bottom / tileSize := by
  obtain ⟨hx, hy⟩ := ht
  unfold covered
  simp only [Bool.and_eq_true, decide_eq_true_eq]
  omega

/-- The tiles between the corners of an area are those it touches. -/
theorem touches_iff (hx : area.left ≤ area.right) (hy : area.top ≤ area.bottom) : Touches area t ↔
    (area.left / tileSize ≤ t.1 ∧ t.1 ≤ area.right / tileSize) ∧
      area.top / tileSize ≤ t.2 ∧ t.2 ≤ area.bottom / tileSize := by
  unfold Touches tileSize
  constructor
  · rintro ⟨x, y, ⟨hx0, hx1⟩, ⟨hy0, hy1⟩, rfl⟩
    exact ⟨⟨Nat.div_le_div_right hx0, Nat.div_le_div_right hx1⟩, Nat.div_le_div_right hy0, Nat.div_le_div_right hy1⟩
  · rintro ⟨⟨hx0, hx1⟩, hy0, hy1⟩
    refine ⟨max area.left (t.1 * 64), max area.top (t.2 * 64), by omega, by omega, Prod.ext ?_ ?_⟩
    · change max area.left (t.1 * 64) / 64 = t.1
      omega
    · change max area.top (t.2 * 64) / 64 = t.2
      omega

/-- **Invalidated tiles are dirty**, and no others become so. -/
theorem invalidate_spec (hs : Sized s) (area : Rectangle16) :
    Sized (s.invalidate area) ∧ (s.invalidate area).setup = s.setup ∧
    (s.invalidate area).previous = s.previous ∧ ∀ t, IsTile s.setup t →
      ((s.invalidate area).isDirty t = true ↔ s.isDirty t = true ∨ Touches area t) := by
  unfold invalidate
  by_cases hempty : area.right < area.left ∨ area.bottom < area.top
  · rw [if_pos hempty]
    refine ⟨hs, rfl, rfl, fun t _ => ⟨.inl, ?_⟩⟩
    rintro (hdirty | ⟨x, y, hx, hy, -⟩)
    · exact hdirty
    · omega
  · rw [if_neg hempty]
    refine ⟨⟨hs.previous, ?_⟩, rfl, rfl, fun t ht => ?_⟩
    · change (markDirty _ _ _).length = _
      rw [markDirty_length]
      exact hs.dirty
    · have hmem : ∀ t ∈ s.setup.tiles.filter (fun t => covered s.setup area t.1 t.2), IsTile s.setup t :=
        fun t ht => (mem_tiles t).mp (mem_of_mem_filter ht)
      have hmark := getD_markDirty ht _ s.dirty hmem hs.dirty
      change (markDirty _ _ _).getD _ false = true ↔ _
      rw [hmark, Bool.or_eq_true, decide_eq_true_eq, mem_filter, mem_tiles, or_comm]
      refine or_congr Iff.rfl ?_
      have hcovered := covered_iff area ht
      rw [touches_iff (by omega) (by omega), ← hcovered]
      exact and_iff_right ht

/-! ### In step -/

/-- What is not dirty is on the client's screen as the encoder remembers it. -/
structure InStep (c : Session) : Prop where
  sized : Sized c.encoder
  shown : ∀ x y, x < c.encoder.setup.width → y < c.encoder.setup.height →
    c.encoder.isDirty (x / tileSize, y / tileSize) = false →
      c.screen x y = (c.encoder.remembered x y 0, c.encoder.remembered x y 1, c.encoder.remembered x y 2)
  remembers : ∀ last, c.last = some last → ∀ t, IsTile c.encoder.setup t → Remembers c.encoder last t
  marks : ∀ last, c.last = some last → ∀ t, IsTile c.encoder.setup t →
    (c.encoder.isDirty t = true ↔ t ∈ c.invalidated)
  /-- Before the first frame everything is dirty. -/
  fresh : c.last = none → ∀ t, IsTile c.encoder.setup t → c.encoder.isDirty t = true

theorem start_inStep (setup : Setup) (screen : Picture) : InStep (.start setup screen) where
  sized := new_sized setup
  shown := by
    intro x y hx hy hclean
    have hdirty : (new setup).isDirty (x / tileSize, y / tileSize) = true := new_isDirty (isTile_of_pixel hx hy)
    change (new setup).isDirty (x / tileSize, y / tileSize) = false at hclean
    rw [hdirty] at hclean
    cases hclean
  remembers := fun _ h => (by cases h)
  marks := fun _ h => (by cases h)
  fresh := fun _ _ ht => new_isDirty ht

theorem invalidate_inStep (h : InStep c) : InStep
    { c with encoder := c.encoder.invalidate area, invalidated := c.invalidated ∪ {t | Touches area t} } := by
  obtain ⟨hsized, hsetup, hprevious, hdirty⟩ := invalidate_spec h.sized area
  have hremembered : ∀ x y b, (c.encoder.invalidate area).remembered x y b = c.encoder.remembered x y b := by
    intro x y b
    unfold remembered
    rw [hsetup, hprevious]
  refine ⟨hsized, fun x y hx hy hclean => ?_, fun last hlast t ht => ?_, fun last hlast t ht => ?_, fun hnone t ht => ?_⟩
  · rw [hsetup] at hx hy
    rw [hremembered, hremembered, hremembered]
    apply h.shown x y hx hy
    have hiff := hdirty _ (isTile_of_pixel hx hy)
    rw [← Bool.not_eq_true] at hclean ⊢
    exact fun hmark => hclean (hiff.mpr (.inl hmark))
  · rw [hsetup] at ht
    intro x y b hx hy
    rw [hsetup] at hx hy
    rw [hremembered]
    exact h.remembers last hlast t ht x y b hx hy
  · rw [hsetup] at ht
    exact (hdirty t ht).trans (or_congr (h.marks last hlast t ht) Iff.rfl)
  · rw [hsetup] at ht
    exact (hdirty t ht).mpr (.inl (h.fresh hnone t ht))

theorem invalidateAll_inStep (h : InStep c) :
    InStep { c with encoder := c.encoder.invalidateAll, invalidated := Set.univ } where
  sized := by
    refine ⟨h.sized.previous, ?_⟩
    change (List.map _ _).length = _
    rw [length_map]
    exact h.sized.dirty
  shown := by
    intro x y hx hy hclean
    have hdirty := invalidateAll_isDirty h.sized (isTile_of_pixel hx hy)
    change c.encoder.invalidateAll.isDirty _ = false at hclean
    rw [hdirty] at hclean
    cases hclean
  remembers := h.remembers
  marks := fun _ _ t ht => iff_of_true (invalidateAll_isDirty h.sized ht) (Set.mem_univ t)
  fresh := fun _ _ ht => invalidateAll_isDirty h.sized ht

/-! ### An encode -/

theorem not_sent (hs : Sized s) (hf : Fitting s.setup frame) (ht : IsTile s.setup t) (hnot : t ∉ s.sentTiles frame) :
    s.isDirty t = false ∧ Remembers s frame t := by
  refine (sends_eq_false hs hf ht).mp ?_
  rw [← Bool.not_eq_true]
  intro hsend
  exact hnot (mem_filter.mpr ⟨(mem_tiles t).mpr ht, hsend⟩)

/-- **A tile is sent when the client needs it.** -/
theorem sends_iff (h : InStep c) (hf : Fitting c.encoder.setup frame) (ht : IsTile c.encoder.setup t) :
    c.encoder.sends frame t.1 t.2 = true ↔ Owed c.encoder.setup c.last c.invalidated frame t := by
  rw [← Bool.not_eq_false, sends_eq_false h.sized hf ht]
  cases hlast : c.last with
  | none =>
    refine iff_of_true (fun hclean => ?_) fun before hbefore => (by cases hbefore)
    rw [h.fresh hlast t ht] at hclean
    exact absurd hclean.1 (by decide)
  | some last =>
    have hmarks := h.marks last hlast t ht
    have hsame := h.remembers last hlast t ht
    constructor
    · rintro hsent before hbefore
      obtain rfl := Option.some.inj hbefore
      by_contra hno
      obtain ⟨hvalid, hdiffers⟩ := not_or.mp hno
      refine hsent ⟨Bool.not_eq_true _ ▸ fun hdirty => hvalid (hmarks.mp hdirty), fun x y b hx hy hb hcol hrow => ?_⟩
      rw [hsame x y b hx hy hb hcol hrow]
      by_contra hne
      exact hdiffers ⟨x, y, b, ⟨hx, hy, hb⟩, Prod.ext hcol hrow, hne⟩
    · rintro howed ⟨hclean, hremembers⟩
      rcases howed last rfl with hinvalid | ⟨x, y, b, ⟨hx, hy, hb⟩, heq, hne⟩
      · rw [hmarks.mpr hinvalid] at hclean
        cases hclean
      · have hcol := congrArg Prod.fst heq
        have hrow := congrArg Prod.snd heq
        exact hne ((hsame x y b hx hy hb hcol hrow).symm.trans (hremembers x y b hx hy hb hcol hrow))

theorem sentTiles_eq (h : InStep c) (hf : Fitting c.encoder.setup frame) :
    c.encoder.sentTiles frame = owedTiles c.encoder.setup c.last c.invalidated frame := by
  classical
  refine filter_congr fun t ht => ?_
  rw [Bool.eq_iff_iff, decide_eq_true_iff]
  exact sends_iff h hf ((mem_tiles t).mp ht)

/-- With the frame on its screen the client is in step. -/
theorem Collected.inStep {encoder : FrameEncoder} {screen : Picture} (h : Collected s encoder frame s.setup.tiles)
    (hshows : ∀ x y, x < s.setup.width → y < s.setup.height → screen x y = frameColor frame x y) :
    InStep { encoder, screen, last := some frame, invalidated := ∅ } := by
  have hall : ∀ t, IsTile encoder.setup t → t ∈ s.setup.tiles := fun t ht => (mem_tiles t).mpr (h.setup ▸ ht)
  refine ⟨h.sized, fun x y hx hy _ => ?_, fun last hlast t ht => ?_, fun last hlast t ht => ?_,
    fun hnone => (by cases hnone)⟩
  · have hbyte : ∀ b < bytesPerSourcePixel, encoder.remembered x y b = Planar.sample frame x y b :=
      fun b hb => h.remembers _ (hall _ (isTile_of_pixel hx hy)) x y b (h.setup ▸ hx) (h.setup ▸ hy) hb rfl rfl
    rw [hbyte 0 (by decide), hbyte 1 (by decide), hbyte 2 (by decide)]
    exact hshows x y (h.setup ▸ hx) (h.setup ▸ hy)
  · obtain rfl : frame = last := Option.some.inj hlast
    exact h.remembers t (hall t ht)
  · rw [h.clean t (hall t ht)]
    exact iff_of_false (by decide) (Set.notMem_empty t)

/-- **An encode serves the client**, and leaves it in step. -/
theorem encode_serves (hdepth : c.encoder.setup.bpp = 32 ∨ c.encoder.setup.bpp = 24) (h : InStep c)
    (hf : Fitting c.encoder.setup frame) {updates : List (List UInt8)} {encoder : FrameEncoder}
      {rects : List BitmapData}
    (hencoded : Encoded c.encoder encoder frame maxUpdateSize updates rects) : ∃ screen, Served c frame updates screen ∧
      InStep { encoder, screen, last := some frame, invalidated := ∅ } := by
  obtain ⟨screen, hpaint, hscreen⟩ := paintAll_tiles hdepth hf hencoded.rects c.screen
  have hshows : ∀ x y, x < c.encoder.setup.width → y < c.encoder.setup.height → screen x y = frameColor frame x y := by
    intro x y hx hy
    rw [hscreen x y hx hy]
    split_ifs with hsent
    · rfl
    · obtain ⟨hclean, hremembers⟩ := not_sent h.sized hf (isTile_of_pixel hx hy) hsent
      rw [h.shown x y hx hy hclean]
      have hbyte : ∀ b < bytesPerSourcePixel, c.encoder.remembered x y b = Planar.sample frame x y b :=
        fun b hb => hremembers x y b hx hy hb rfl rfl
      unfold frameColor
      rw [hbyte 0 (by decide), hbyte 1 (by decide), hbyte 2 (by decide)]
  have hrect : ∀ rect, InUpdates updates rect → ∃ t ∈ c.encoder.sentTiles frame, IsTile c.encoder.setup t ∧
      RectOf c.encoder.setup t rect := by
    intro rect hin
    obtain ⟨i, hi, hget⟩ := getElem_of_mem (mem_of_inUpdates hencoded.carries hin)
    have hlength := hencoded.rects.length_eq
    have hpair := hencoded.rects.get (hlength ▸ hi) hi
    simp only [get_eq_getElem, hget] at hpair
    exact ⟨_, getElem_mem _, hpair.1, hpair.2.1⟩
  refine ⟨screen, ⟨?_, hshows, ?_, ?_⟩, ?_⟩
  · rw [receive_carried hencoded.carries]
    exact hpaint
  · intro rect hin
    obtain ⟨t, -, ht, hof⟩ := hrect rect hin
    have hpart := tile_part ht
    obtain ⟨-, ⟨htall, -⟩, -⟩ := tile_sizes ht
    have hleft := hof.left
    have htop := hof.top
    have hright := hof.right
    have hbottom := hof.bottom
    have hvisible := hpart.visible
    have hinX := hpart.right
    have hinY := hpart.bottom
    omega
  · intro last hlast rect hin
    obtain ⟨t, hsent, -, hof⟩ := hrect rect hin
    obtain ⟨hmem, hsend⟩ := mem_filter.mp hsent
    exact ⟨t, hof, (sends_iff h hf ((mem_tiles t).mp hmem)).mp hsend last hlast⟩
  · exact hencoded.collected.inStep hshows

/-! ### A run -/

/-- A run in step. -/
theorem serves_iff_of_inStep : ∀ (calls : List Call) {c : Session},
    (c.encoder.setup.bpp = 32 ∨ c.encoder.setup.bpp = 24) → (∀ call ∈ calls, call.Valid c.encoder.setup) → InStep c →
      (Serves c calls ↔ Meets c.encoder.setup c.last c.invalidated calls)
  | [], _, _, _, _ => Iff.rfl
  | call :: calls, c, hdepth, hcalls, h => by
    have hrest : ∀ call ∈ calls, call.Valid c.encoder.setup := fun call hmem =>
      hcalls call (mem_cons_of_mem _ hmem)
    have hcall := hcalls call mem_cons_self
    cases call with
    | encode frame maxUpdateSize =>
      obtain ⟨hf, hmax⟩ := hcall
      unfold Serves Meets
      have hiff : c.encoder.FrameCountable frame maxUpdateSize ↔ Countable maxUpdateSize 0 updateHeaderSize
          ((owedTiles c.encoder.setup c.last c.invalidated frame).map (tileBytes c.encoder.setup frame)) := by
        rw [FrameCountable, sentTiles_eq h hf]
      rw [← hiff]
      by_cases hcount : c.encoder.FrameCountable frame maxUpdateSize
      · obtain ⟨updates, encoder, rects, hencode, hencoded⟩ := encode_spec h.sized hf hmax hcount
        have hsetup := hencoded.collected.setup
        have hnext : ∀ screen, InStep { encoder, screen, last := some frame, invalidated := ∅ } →
            (Serves { encoder, screen, last := some frame, invalidated := ∅ } calls ↔
              Meets c.encoder.setup (some frame) ∅ calls) := by
          intro screen hstep
          rw [← hsetup]
          exact serves_iff_of_inStep calls (hsetup ▸ hdepth) (hsetup ▸ hrest) hstep
        obtain ⟨screen, hserved, hstep⟩ := encode_serves hdepth h hf hencoded
        constructor
        · rintro ⟨updates', encoder', screen', hencode', hserved', hserves⟩
          rw [hencode] at hencode'
          cases hencode'
          have hscreen : screen' = screen := Option.some.inj (hserved'.received.symm.trans hserved.received)
          subst hscreen
          exact ⟨hcount, (hnext screen' hstep).mp hserves⟩
        · rintro ⟨-, hmeets⟩
          exact ⟨updates, encoder, screen, hencode, hserved, (hnext screen hstep).mpr hmeets⟩
      · have hnone := encode_none h.sized hf hmax hcount
        constructor
        · rintro ⟨updates, encoder, screen, hencode, -⟩
          rw [hnone] at hencode
          cases hencode
        · rintro ⟨hcount', -⟩
          exact absurd hcount' hcount
    | invalidate area =>
      have hsetup := (invalidate_spec h.sized area).2.1
      unfold Serves Meets
      rw [← hsetup]
      exact serves_iff_of_inStep calls (hsetup ▸ hdepth) (hsetup ▸ hrest) (invalidate_inStep h)
    | invalidateAll =>
      unfold Serves Meets
      exact serves_iff_of_inStep calls hdepth hrest (invalidateAll_inStep h)

/-! ### Frames of one shade -/

def plainFrame (setup : Setup) (shade : UInt8) : ImageView where
  data := List.replicate (setup.height * (setup.width * bytesPerSourcePixel)) shade
  width := setup.width
  height := setup.height
  stride := setup.width * bytesPerSourcePixel

theorem plainFrame_fitting (setup : Setup) (shade : UInt8) : Fitting setup (plainFrame setup shade) where
  width := rfl
  height := rfl
  stride := Nat.le_refl _
  data := by
    have hheight := setup.size.2.1
    change (setup.height - 1) * (setup.width * bytesPerSourcePixel) + setup.width * bytesPerSourcePixel ≤
      (List.replicate _ _).length
    rw [length_replicate, ← Nat.succ_mul, Nat.succ_eq_add_one, Nat.sub_add_cancel hheight]

/-- The same with another byte in its first pixel. -/
def cornerFrame (setup : Setup) (shade corner : UInt8) : ImageView :=
  { plainFrame setup shade with data := (plainFrame setup shade).data.set 0 corner }

theorem cornerFrame_fitting (setup : Setup) (shade corner : UInt8) : Fitting setup (cornerFrame setup shade corner) :=
  { plainFrame_fitting setup shade with data := (plainFrame_fitting setup shade).data.trans_eq length_set.symm }

/-- The bytes of a tile are its rectangle's. -/
theorem tileBytes_spec (hf : Fitting setup frame) (ht : IsTile setup t) : ∃ rect,
    tileBytes setup frame t = rect.encodedSize ∧ RectOf setup t rect ∧ DataOf setup frame t rect.data := by
  obtain ⟨tile, htile, hrect, hdata, -⟩ := encodeTile_spec hf ht
  refine ⟨_, ?_, hrect, hdata⟩
  unfold tileBytes
  rw [htile]
  rfl

/-- A limit that holds any tile. -/
theorem holdsTiles_of_worst (hf : Fitting setup frame)
    (h : updateHeaderSize + (rectHeaderSize + compressionHeaderSize + worstTile setup) ≤ maxUpdateSize) :
    HoldsTiles setup frame maxUpdateSize := by
  intro t ht
  obtain ⟨rect, hbytes, -, hdata⟩ := tileBytes_spec hf ht
  have hworst := hdata.length_le ht
  have hheader : rect.headerSize ≤ compressionHeaderSize := by
    unfold BitmapData.headerSize
    split_ifs
    · exact Nat.le_refl _
    · exact Nat.zero_le _
  rw [hbytes]
  unfold BitmapData.encodedSize
  omega

/-- Raw tiles take the same bytes whatever they show. -/
theorem tileBytes_uncompressed (hcodec : setup.codec = .uncompressed) (hf : Fitting setup frame) (ht : IsTile setup t) :
    tileBytes setup frame t =
      rectHeaderSize + setup.tileHeight t.2 * rowBytes (setup.paddedWidth t.1) setup.bpp := by
  obtain ⟨rect, hbytes, hrect, hdata⟩ := tileBytes_spec hf ht
  have hheader : rect.headerSize = 0 := by
    unfold BitmapData.headerSize BitmapData.hasCompressionHeader
    rw [hrect.flags]
    unfold updateFlags
    rw [hcodec]
    exact if_neg (by dsimp only; decide)
  have hlength : rect.data.length = setup.tileHeight t.2 * rowBytes (setup.paddedWidth t.1) setup.bpp := by
    generalize rect.data = data at hdata
    cases hdata with
    | planar hplanar => rw [hcodec] at hplanar; cases hplanar
    | uncompressed => exact uncompressed_length setup.depth _ _ _
  rw [hbytes]
  unfold BitmapData.encodedSize
  rw [hheader, hlength, add_zero]

/-! ### When no update is overfull -/

theorem length_tiles (setup : Setup) : setup.tiles.length = setup.tilesY * setup.tilesX :=
  Rows.length_flatMap_range setup.tilesY fun _ _ => by rw [length_map, length_range]

theorem rectHeaderSize_le_tileBytes (hf : Fitting s.setup frame) (ht : IsTile s.setup t) :
    rectHeaderSize ≤ tileBytes s.setup frame t := by
  obtain ⟨tile, htile, -⟩ := encodeTile_spec hf ht
  unfold tileBytes
  rw [htile]
  unfold BitmapData.encodedSize
  dsimp only [Option.map_some, Option.getD_some]
  omega

/-- A limit that only so many empty rectangles fit. -/
theorem frameCountable_of_size (hf : Fitting s.setup frame) (hmax : HoldsTiles s.setup frame maxUpdateSize)
    (hsmall : maxUpdateSize < updateHeaderSize + (maxRectangles + 1) * rectHeaderSize) :
    s.FrameCountable frame maxUpdateSize := by
  have htile : ∀ t ∈ s.sentTiles frame, IsTile s.setup t := fun t ht => (mem_tiles t).mp (mem_of_mem_filter ht)
  refine countable_of_small (by decide) hsmall ?_ (by decide) (.inl rfl) ?_
  · intro next hnext
    obtain ⟨t, ht, rfl⟩ := mem_map.mp hnext
    exact rectHeaderSize_le_tileBytes hf (htile t ht)
  · intro next hnext
    obtain ⟨t, ht, rfl⟩ := mem_map.mp hnext
    exact hmax t (htile t ht)

/-- A run on a desktop of at most 65535 tiles. -/
theorem meets_of_tiles (htiles : setup.tilesX * setup.tilesY ≤ maxRectangles) : ∀ (calls : List Call)
    (last : Option ImageView) (invalidated : Set (ℕ × ℕ)), Meets setup last invalidated calls
  | [], _, _ => trivial
  | .encode frame _ :: calls, last, invalidated => by
    refine ⟨countable_of_le ?_, meets_of_tiles htiles calls _ _⟩
    rw [length_map, zero_add]
    calc (owedTiles setup last invalidated frame).length ≤ setup.tiles.length := length_filter_le _ _
      _ = setup.tilesX * setup.tilesY := (length_tiles setup).trans (mul_comm _ _)
      _ ≤ maxRectangles := htiles
  | .invalidate _ :: calls, _, _ => meets_of_tiles htiles calls _ _
  | .invalidateAll :: calls, _, _ => meets_of_tiles htiles calls _ _

/-! ### Runs on a desktop -/

/-- **A run serves its client** if and only if no update is overfull. -/
theorem serves_iff {setup : Setup} (hdepth : setup.bpp = 32 ∨ setup.bpp = 24) {calls : List Call}
    (hcalls : ∀ call ∈ calls, call.Valid setup) (screen : Picture) :
    Serves (.start setup screen) calls ↔ Meets setup none ∅ calls :=
  serves_iff_of_inStep calls hdepth hcalls (start_inStep setup screen)

/-- A desktop of three by two tiles, most of them cut off, sent raw. -/
def smallDesktop : Setup where
  width := 133
  height := 67
  bpp := 24
  codec := .uncompressed
  omitHeader := false
  size := by decide
  depth := by decide
  planar := by decide

/-- One tile changes, two are invalidated, and then all of them. -/
def smallRun : List Call :=
  [.encode (plainFrame smallDesktop 1) 20000, .encode (cornerFrame smallDesktop 1 2) 20000,
    .invalidate ⟨60, 1, 64, 2⟩, .encode (plainFrame smallDesktop 2) 20000, .invalidateAll,
    .encode (plainFrame smallDesktop 2) 20000]

theorem smallDesktop_served : Serves (.start smallDesktop fun _ _ => (7, 8, 9)) smallRun := by
  have hvalid : ∀ {frame}, Fitting smallDesktop frame → (Call.encode frame 20000).Valid smallDesktop := fun hf =>
    ⟨hf, holdsTiles_of_worst hf (by decide)⟩
  have hcalls : ∀ call ∈ smallRun, call.Valid smallDesktop := by
    simp only [smallRun, forall_mem_cons]
    exact ⟨hvalid (plainFrame_fitting _ 1), hvalid (cornerFrame_fitting _ 1 2), trivial,
      hvalid (plainFrame_fitting _ 2), trivial, hvalid (plainFrame_fitting _ 2), fun _ h => (by cases h)⟩
  exact (serves_iff (.inr rfl) hcalls _).mpr (meets_of_tiles (by decide) smallRun _ _)

/-- A desktop of 65536 tiles, sent raw. -/
def largeDesktop : Setup where
  width := 16384
  height := 16384
  bpp := 24
  codec := .uncompressed
  omitHeader := false
  size := by decide
  depth := by decide
  planar := by decide

/-- **An overfull update**: all tiles of a large desktop fit a limit of 2^30 bytes. -/
theorem largeDesktop_fails : (Call.encode (plainFrame largeDesktop 0) (2 ^ 30)).Valid largeDesktop ∧
    ¬ Serves (.start largeDesktop fun _ _ => (7, 8, 9)) [.encode (plainFrame largeDesktop 0) (2 ^ 30)] := by
  have hf := plainFrame_fitting largeDesktop 0
  have hmax : HoldsTiles largeDesktop (plainFrame largeDesktop 0) (2 ^ 30) := holdsTiles_of_worst hf (by decide)
  refine ⟨⟨hf, hmax⟩, ?_⟩
  have hbytes : ∀ t ∈ largeDesktop.tiles, tileBytes largeDesktop (plainFrame largeDesktop 0) t = 12306 := by
    intro t ht
    obtain ⟨hx, hy⟩ := (mem_tiles t).mp ht
    have hx := (tilesX_spec largeDesktop).mp hx
    have hy := (tilesY_spec largeDesktop).mp hy
    have hwidth : largeDesktop.paddedWidth t.1 = 64 := by
      unfold Setup.paddedWidth Setup.visibleWidth tileSize at *
      simp only [largeDesktop] at *
      omega
    have hheight : largeDesktop.tileHeight t.2 = 64 := by
      unfold Setup.tileHeight tileSize at *
      simp only [largeDesktop] at *
      omega
    rw [tileBytes_uncompressed rfl hf ((mem_tiles t).mp ht), hwidth, hheight]
    rfl
  have hsent : (new largeDesktop).sentTiles (plainFrame largeDesktop 0) = largeDesktop.tiles := by
    refine filter_eq_self.mpr fun t ht => ?_
    have hdirty := new_isDirty ((mem_tiles t).mp ht)
    unfold sends
    rw [Bool.or_eq_true]
    exact .inl hdirty
  have htiles : largeDesktop.tiles.length = 65536 := length_tiles largeDesktop
  have hsizes : ((new largeDesktop).sentTiles (plainFrame largeDesktop 0)).map
      (tileBytes largeDesktop (plainFrame largeDesktop 0)) = List.replicate 65536 12306 := by
    rw [hsent, map_congr_left hbytes, map_const', htiles]
  have hcount : ¬ (new largeDesktop).FrameCountable (plainFrame largeDesktop 0) (2 ^ 30) := by
    unfold FrameCountable
    change ¬ Countable _ _ _ (((new largeDesktop).sentTiles (plainFrame largeDesktop 0)).map
      (tileBytes largeDesktop (plainFrame largeDesktop 0)))
    rw [hsizes, countable_replicate (by decide)]
    decide
  rintro ⟨updates, encoder, screen, hencode, -⟩
  have hnone := encode_none (new_sized largeDesktop) hf hmax hcount
  change (new largeDesktop).encode (plainFrame largeDesktop 0) (2 ^ 30) = _ at hencode
  rw [hnone] at hencode
  cases hencode

end

end FrameEncoder
end Server
end Farland
