/-
# What the strips send

`encodeStrips` gives each strip of rows to one layer. `Work.Sent` says what
the bytes of the two later layers are at any moment: the bands and the
subcodecs written so far, in order, each inside the image, with every covered
pixel in one of them. It holds at the start and every strip keeps it.

Key theorems: `encodeStrip_sent`, `encodeStrips_sent`.
-/
import Farland.Codec.Clear.Bands

namespace Farland
namespace Codec
namespace Clear

open List Area

/-! ### The dominant colour -/

theorem Tally.add_best {tally : Tally} {c : Color} {run : ℕ} {P : Color → Prop} (h : P tally.best) (hc : P c) :
    P (tally.add c run).best := by
  unfold Tally.add
  dsimp only
  split_ifs
  · exact hc
  · exact h

theorem Tally.addRow_best {P : Color → Prop} : ∀ (fuel : ℕ) (row : List Color) (tally : Tally), P tally.best →
    (∀ c ∈ row, P c) → P (Tally.addRow fuel row tally).best
  | 0, _, _, h, _ => h
  | _ + 1, [], _, h, _ => h
  | fuel + 1, c :: rest, tally, h, hrow => by
    refine addRow_best fuel _ _ (add_best h (hrow c mem_cons_self)) fun d hd => ?_
    exact hrow d (mem_cons_of_mem _ ((dropWhile_sublist _).subset hd))

variable (image : Image)

theorem dominantColor_lt (area : Area) : dominantColor image area < 2 ^ 24 := by
  have hfold : ∀ (ys : List ℕ) (tally : Tally), tally.best < 2 ^ 24 →
      (ys.foldl (fun tally y => tally.addRow area.width (image.areaRow area y)) tally).best < 2 ^ 24 := by
    intro ys
    induction ys with
    | nil => exact fun _ h => h
    | cons y ys ih =>
      intro tally h
      refine ih _ (Tally.addRow_best (P := (· < 2 ^ 24)) _ _ _ h fun c hc => ?_)
      obtain ⟨x, -, rfl⟩ := mem_map.mp hc
      exact image.at_lt x y
  exact hfold _ _ (image.at_lt _ _)

/-! ### The area of a strip -/

theorem trimLeft_spec (background : ℕ → Bool) {x1 : ℕ} : ∀ (fuel x0 : ℕ), x0 ≤ x1 → x1 ≤ x0 + fuel →
    x0 ≤ trimLeft background x1 fuel x0 ∧ trimLeft background x1 fuel x0 ≤ x1 ∧
      (∀ x, x0 ≤ x → x < trimLeft background x1 fuel x0 → background x = true) ∧
      (trimLeft background x1 fuel x0 < x1 → background (trimLeft background x1 fuel x0) = false)
  | 0, x0, hle, hf => by
    unfold trimLeft
    exact ⟨le_rfl, hle, fun x h1 h2 => by omega, fun h => by omega⟩
  | fuel + 1, x0, hle, hf => by
    unfold trimLeft
    by_cases hc : x0 < x1 ∧ background x0 = true
    · rw [if_pos hc]
      obtain ⟨h1, h2, h3, h4⟩ := trimLeft_spec background fuel (x0 + 1) hc.1 (by omega)
      refine ⟨by omega, h2, fun x hx hlt => ?_, h4⟩
      rcases Nat.eq_or_lt_of_le hx with rfl | hx
      · exact hc.2
      · exact h3 x hx hlt
    · rw [if_neg hc]
      refine ⟨le_rfl, hle, fun x h1 h2 => by omega, fun h => ?_⟩
      exact Bool.eq_false_iff.mpr fun hb => hc ⟨h, hb⟩

theorem trimRight_spec {background : ℕ → Bool} {x0 : ℕ} (hx0 : background x0 = false) : ∀ (fuel x1 : ℕ), x0 < x1 →
    x0 < trimRight background x0 fuel x1 ∧ trimRight background x0 fuel x1 ≤ x1
  | 0, x1, h => ⟨h, le_rfl⟩
  | fuel + 1, x1, h => by
    unfold trimRight
    by_cases hc : x0 < x1 ∧ background (x1 - 1) = true
    · rw [if_pos hc]
      have hne : x1 - 1 ≠ x0 := by
        intro he
        rw [he, hx0] at hc
        cases hc.2
      obtain ⟨h1, h2⟩ := trimRight_spec hx0 fuel (x1 - 1) (by omega)
      exact ⟨h1, by omega⟩
    · rw [if_neg hc]
      exact ⟨h, le_rfl⟩

theorem Image.getElem?_row {x y : ℕ} (hx : x < image.width) (hy : y < image.height) :
    (image.row y)[x]? = some (image.at_ x y) := by
  have hi := image.index_lt hx hy
  rw [Image.row, getElem?_take_of_lt hx, getElem?_drop, Image.at_, getD_eq_getElem?_getD,
    getElem?_eq_getElem (by rw [image.size]; exact hi), Option.getD_some]

theorem Image.row_length {y : ℕ} (hy : y < image.height) : (image.row y).length = image.width := by
  have hmul : (y + 1) * image.width ≤ image.height * image.width := Nat.mul_le_mul_right _ hy
  rw [Image.row, length_take, length_drop, image.size, Nat.mul_comm image.width]
  rw [Nat.add_mul] at hmul
  omega

/-- A row with one colour in every column is a single-colour row. -/
theorem singleColor_of_forall {image : Image} {y : ℕ} {c : Color} (hy : y < image.height)
    (h : ∀ x < image.width, image.at_ x y = c) : singleColor image y = true := by
  have hall : ∀ d ∈ image.row y, d = c := by
    intro d hd
    obtain ⟨x, hx⟩ := getElem?_of_mem hd
    have hlt : x < image.width := image.row_length hy ▸ (List.getElem?_eq_some_iff.mp hx).1
    rw [image.getElem?_row hlt hy, h x hlt, Option.some.injEq] at hx
    exact hx.symm
  have hhead : (image.row y).headD 0 = c := by
    obtain ⟨d, l, hl⟩ := exists_cons_of_length_pos (l := image.row y)
      (by rw [image.row_length hy]; exact image.width_pos)
    rw [hl]
    exact hall d (by rw [hl]; exact mem_cons_self)
  unfold singleColor
  dsimp only
  rw [hhead, all_eq_true]
  intro d hd
  exact beq_iff_eq.mpr (hall d hd)

/-- Rows that hold more than one colour leave columns to send. -/
theorem stripArea_inside {image : Image} {y0 y1 : ℕ} (background : Color) (hy : y0 < y1) (hy1 : y1 ≤ image.height)
    (hs : singleColor image y0 = false) : (stripArea image y0 y1 background).Inside image.width image.height := by
  obtain ⟨-, hle, hbefore, hat⟩ := trimLeft_spec (backgroundColumn image y0 y1 background)
    image.width 0 (Nat.zero_le image.width) (Nat.zero_add _).ge
  have hlt : trimLeft (backgroundColumn image y0 y1 background) image.width image.width 0 < image.width := by
    refine lt_of_le_of_ne hle fun he => ?_
    rw [he] at hbefore
    have hrow : ∀ x < image.width, image.at_ x y0 = background := by
      intro x hx
      have hcol := all_eq_true.mp (hbefore x (Nat.zero_le x) hx) y0 (mem_range'_1.mpr ⟨le_rfl, by omega⟩)
      exact beq_iff_eq.mp hcol
    rw [singleColor_of_forall (by omega) hrow] at hs
    cases hs
  obtain ⟨h1, h2⟩ := trimRight_spec (hat hlt) image.width image.width hlt
  exact ⟨h1, h2, hy, hy1⟩

/-! ### The bands of a strip -/

/-- Bands of one strip from `x0` on, one behind the other up to `x1`. -/
structure Bands (area : Area) (x1 : ℕ) (bands : List Area) : Prop where
  rows : ∀ b ∈ bands, b.y0 = area.y0 ∧ b.y1 = area.y1
  columns : ∀ b ∈ bands, b.x0 < b.x1 ∧ b.x1 ≤ x1
  widths : area.x0 + (bands.map width).sum ≤ x1

theorem Bands.append {area : Area} {start x1 x2 : ℕ} {bands : List Area} (h : Bands area start bands)
    (h1 : start < x1) (h2 : x1 ≤ x2) : Bands area x2 (bands ++ [⟨start, x1, area.y0, area.y1⟩]) := by
  have hw := h.widths
  refine ⟨fun b hb => ?_, fun b hb => ?_, ?_⟩
  · rcases mem_append.mp hb with hb | hb
    · exact h.rows b hb
    · rw [mem_singleton.mp hb]
      exact ⟨rfl, rfl⟩
  · rcases mem_append.mp hb with hb | hb
    · have := h.columns b hb
      omega
    · rw [mem_singleton.mp hb]
      exact ⟨h1, h2⟩
  · rw [map_append, sum_append, map_singleton, sum_singleton]
    unfold width at hw ⊢
    dsimp only
    omega

/-- What holds of the cut before the column `x`. -/
structure Cut.Before (cut : Cut) (area : Area) (x : ℕ) : Prop where
  bands : Bands area cut.start cut.out
  start_le : cut.start ≤ x
  start_lt : cut.start < area.x1

theorem splitBands_bands {area : Area} (background : Color) (h : area.x0 < area.x1) :
    Bands area area.x1 (splitBands image area background) := by
  have hfold : ∀ (n x : ℕ) (cut : Cut), cut.Before area x → x + n ≤ area.x1 → ((List.range' x n).foldl
        (fun (cut : Cut) x =>
          if !backgroundColumn image area.y0 area.y1 background x then
            if cut.gap ≥ minBandGap ∧ x - cut.gap > cut.start then
              ⟨cut.out ++ [⟨cut.start, x - cut.gap, area.y0, area.y1⟩], x, 0⟩
            else { cut with gap := 0 }
          else { cut with gap := cut.gap + 1 })
        cut).Before area (x + n) := by
    intro n
    induction n with
    | zero => exact fun x cut hb _ => hb
    | succ n ih =>
      intro x cut hb hle
      rw [range'_succ, foldl_cons, show x + (n + 1) = x + 1 + n by omega]
      refine ih (x + 1) _ ?_ (by omega)
      have hs := hb.start_le
      split_ifs with h1 h2
      · exact ⟨hb.bands.append h2.2 (Nat.sub_le _ _), by dsimp only; omega, by dsimp only; omega⟩
      all_goals exact ⟨hb.bands, by dsimp only; omega, hb.start_lt⟩
  have hstart : ({ start := area.x0 } : Cut).Before area area.x0 := ⟨⟨nofun, nofun, le_rfl⟩, le_rfl, h⟩
  have hend := hfold area.width area.x0 _ hstart (by unfold width; omega)
  exact hend.bands.append hend.start_lt le_rfl

/-! ### How large a layer gets -/

theorem writeColumn_length {column : Column} {image : Image} {x y0 y1 : ℕ} {background : Color}
    (h : column.Spec image x y0 y1 background) (caches : Caches) :
    (writeColumn caches column).1.length ≤ 3 + 3 * (y1 - y0) := by
  have hs := h.shortVbar_length
  have hoff := h.off_le
  unfold writeColumn
  split
  · simp
    omega
  · dsimp only
    split
    · simp
    · rw [length_append, flatMap_writeBgr_length, Writer.u16le_length]
      omega

theorem writeColumns_length (image : Image) (y0 y1 : ℕ) (background : Color) : ∀ (xs : List ℕ) (caches : Caches),
    (writeColumns image y0 y1 background xs caches).1.length ≤ xs.length * (3 + 3 * (y1 - y0))
  | [], caches => Nat.zero_le _
  | x :: xs, caches => by
    have h1 := writeColumn_length (loadColumn_spec image x y0 y1 background) caches
    have h2 := writeColumns_length image y0 y1 background xs
      (writeColumn caches (loadColumn image x y0 y1 background)).2
    unfold writeColumns
    dsimp only
    rw [length_append, length_cons, Nat.add_mul]
    omega

/-- At most 17 bytes a pixel. -/
theorem writeBand_length_le (background : Color) {band : Area} {width height : ℕ}
    (h : band.Inside width height) (caches : Caches) :
    (writeBand image background band caches).1.length ≤ 17 * (band.width * band.height) := by
  have hw : 1 ≤ band.width := Nat.sub_pos_of_lt h.x_lt
  have hh : 1 ≤ band.height := Nat.sub_pos_of_lt h.y_lt
  have hc := writeColumns_length image band.y0 band.y1 background (List.range' band.x0 band.width) caches
  rw [length_range'] at hc
  have hlen : (writeBand image background band caches).1.length ≤ 11 + band.width * (3 + 3 * band.height) := by
    simp only [writeBand, length_append]
    exact Nat.add_le_add_left hc 11
  calc (writeBand image background band caches).1.length ≤ 11 + band.width * (3 + 3 * band.height) := hlen
    _ ≤ 11 * (band.width * band.height) + 3 * (band.width * band.height) + 3 * (band.width * band.height) := by
        have := Nat.mul_le_mul_left band.width hh
        rw [Nat.mul_add, Nat.mul_left_comm]
        omega
    _ = 17 * (band.width * band.height) := by ring

/-! ### What was sent -/

theorem writeBands_append (image : Image) : ∀ (a b : List (Color × Area)) (caches : Caches),
    writeBands image (a ++ b) caches =
      ((writeBands image a caches).1 ++ (writeBands image b (writeBands image a caches).2).1,
        (writeBands image b (writeBands image a caches).2).2)
  | [], b, caches => rfl
  | (background, band) :: a, b, caches => by
    rw [cons_append, writeBands, writeBands, writeBands_append image a b]
    dsimp only
    rw [append_assoc]

/-- The bands `B` and the subcodecs `S`, written from `caches` on, are what
`w` has sent; at most 17 bytes for each of `pixels` pixels. -/
structure Work.Sent (image : Image) (caches : Caches) (B : List (Color × Area)) (S : List Subcodec) (pixels : ℕ)
    (w : Work) : Prop where
  bands : writeBands image B caches = (w.bands, ⟨w.vbars, w.shortVbars⟩)
  subcodecs : w.subcodecs = S.flatMap fun s => writeSubcodec s.area s.id s.data
  bandOk : ∀ b ∈ B, BandOk ⟨0, image.width, image.height⟩ b.1 b.2
  subcodecOk : ∀ s ∈ S, IsSubcodec image s.area s.id s.data ∧ s.area.Inside image.width image.height
  length : w.covered.length = image.pixels.length
  covered : ∀ i : ℕ, w.covered[i]? = some true →
    ∃ a ∈ B.map (·.2) ++ S.map (·.area), a.contains (i % image.width) (i / image.width) = true
  size : w.bands.length + w.subcodecs.length ≤ 17 * pixels

variable {image : Image} {caches : Caches} {y0 y1 : ℕ} {area : Area} {w : Work} {B : List (Color × Area)}
  {S : List Subcodec}

theorem Work.getElem?_cover {i : ℕ} (h : (w.cover image area).covered[i]? = some true) :
    w.covered[i]? = some true ∨ area.contains (i % image.width) (i / image.width) = true := by
  unfold Work.cover at h
  rw [getElem?_mapIdx] at h
  cases hc : w.covered[i]? with
  | none =>
    rw [hc] at h
    cases h
  | some c =>
    rw [hc, Option.map_some, Option.some.injEq, Bool.or_eq_true] at h
    exact h.imp (congrArg some) id

theorem Work.cover_length (image : Image) (w : Work) (area : Area) :
    (w.cover image area).covered.length = w.covered.length := by
  rw [Work.cover, length_mapIdx]

theorem addBands_sent {background : Color} (hbg : background < 2 ^ 24) :
    ∀ (bands : List Area) (B : List (Color × Area)) (S : List Subcodec) (pixels : ℕ) (w : Work),
    (∀ b ∈ bands, b.Inside image.width image.height ∧ b.height ≤ maxBandHeight) →
    w.Sent image caches B S pixels →
    (w.addBands image background bands).Sent image caches (B ++ bands.map fun b => (background, b)) S
      (pixels + (bands.map Area.pixels).sum)
  | [], B, S, pixels, w, _, h => by
    rw [map_nil, append_nil]
    exact h
  | band :: bands, B, S, pixels, w, hb, h => by
    obtain ⟨hin, h52⟩ := hb band mem_cons_self
    have hlen := writeBand_length_le image background hin ⟨w.vbars, w.shortVbars⟩
    have hsize := h.size
    rw [Work.addBands, map_cons, map_cons, sum_cons, ← Nat.add_assoc, append_cons B (background, band)]
    refine addBands_sent hbg bands _ S _ _ (fun b hb' => hb b (mem_cons_of_mem _ hb')) ⟨?_, h.subcodecs, ?_,
      h.subcodecOk, ?_, ?_, ?_⟩
    · rw [writeBands_append, h.bands, writeBands, writeBands]
      dsimp only
      rw [append_nil]
      rfl
    · intro b hb'
      rcases mem_append.mp hb' with hb' | hb'
      · exact h.bandOk b hb'
      · rw [mem_singleton.mp hb']
        exact ⟨hin, h52, hbg⟩
    · rw [Work.cover_length]
      exact h.length
    · intro i hi
      rw [map_append, map_singleton]
      rcases Work.getElem?_cover hi with hi | hi
      · obtain ⟨a, ha, hc⟩ := h.covered i hi
        refine ⟨a, ?_, hc⟩
        rcases mem_append.mp ha with ha | ha
        · exact mem_append_left _ (mem_append_left _ ha)
        · exact mem_append_right _ ha
      · exact ⟨band, mem_append_left _ (mem_append_right _ mem_cons_self), hi⟩
    · change (w.bands ++ _).length + w.subcodecs.length ≤ _
      rw [length_append]
      unfold Area.pixels
      omega

theorem addSubcodec_sent {pixels : ℕ} (h : w.Sent image caches B S pixels) {id : ℕ} {data : List UInt8}
    (hs : IsSubcodec image area id data) (hin : area.Inside image.width image.height) (hp : area.pixels < 2 ^ 32) :
    (w.addSubcodec image area id data).Sent image caches B (S ++ [⟨area, id, data⟩]) (pixels + area.pixels) := by
  have hw : 1 ≤ area.pixels := Nat.mul_pos (Nat.sub_pos_of_lt hin.x_lt) (Nat.sub_pos_of_lt hin.y_lt)
  have hlen := hs.length_le (t := ⟨0, image.width, image.height⟩) hin hp
  have hsize := h.size
  refine ⟨h.bands, ?_, h.bandOk, ?_, ?_, ?_, ?_⟩
  · change w.subcodecs ++ _ = _
    rw [flatMap_append, flatMap_singleton, h.subcodecs]
  · intro s hs'
    rcases mem_append.mp hs' with hs' | hs'
    · exact h.subcodecOk s hs'
    · rw [mem_singleton.mp hs']
      exact ⟨hs, hin⟩
  · unfold Work.addSubcodec
    rw [Work.cover_length]
    exact h.length
  · intro i hi
    rw [map_append, ← append_assoc]
    rcases Work.getElem?_cover hi with hi | hi
    · obtain ⟨a, ha, hc⟩ := h.covered i hi
      exact ⟨a, mem_append_left _ ha, hc⟩
    · exact ⟨area, mem_append_right _ mem_cons_self, hi⟩
  · change w.bands.length + (w.subcodecs ++ _).length ≤ _
    have hheader : (writeSubcodec area id data).length = 13 + data.length := by
      simp [writeSubcodec]
      omega
    rw [length_append]
    omega

theorem Work.Sent.mono {pixels pixels' : ℕ} (h : w.Sent image caches B S pixels) (hle : pixels ≤ pixels') :
    w.Sent image caches B S pixels' := by
  have := h.size
  exact { h with size := by omega }

/-- The seen columns only change what a layer seems to cost. -/
theorem bandsCost_sent {pixels : ℕ} (h : w.Sent image caches B S pixels) (bandAreas : List Area) (background : Color) :
    (bandsCost image w bandAreas background).2.Sent image caches B S pixels := by
  unfold bandsCost
  dsimp only
  split_ifs
  all_goals exact ⟨h.bands, h.subcodecs, h.bandOk, h.subcodecOk, h.length, h.covered, h.size⟩

/-! ### Strips -/

theorem Bands.pixels {bands : List Area} (h : Bands area area.x1 bands) :
    (bands.map Area.pixels).sum ≤ area.pixels := by
  have hmul : ∀ l : List Area, (∀ b ∈ l, b.y0 = area.y0 ∧ b.y1 = area.y1) →
      (l.map Area.pixels).sum = (l.map Area.width).sum * area.height := by
    intro l
    induction l with
    | nil => exact fun _ => (Nat.zero_mul _).symm
    | cons b l ih =>
      intro hl
      obtain ⟨h0, h1⟩ := hl b mem_cons_self
      rw [map_cons, sum_cons, map_cons, sum_cons, ih fun b' hb' => hl b' (mem_cons_of_mem _ hb'), Nat.add_mul]
      unfold Area.pixels Area.height
      rw [h0, h1]
  have hw := h.widths
  rw [hmul bands h.rows]
  exact Nat.mul_le_mul_right _ (by unfold Area.width at *; omega)

/-- What a strip needs of its rows. -/
structure Strip (image : Image) (y0 y1 : ℕ) : Prop where
  lt : y0 < y1
  le : y1 ≤ image.height
  height : y1 - y0 ≤ maxBandHeight
  colors : singleColor image y0 = false

/-- The bands of a strip lie in its area. -/
theorem splitBands_inside (h : Strip image y0 y1) (background : Color) :
    ∀ b ∈ splitBands image (stripArea image y0 y1 background) background,
      b.Inside image.width image.height ∧ b.height ≤ maxBandHeight := by
  have hin := stripArea_inside background h.lt h.le h.colors
  have hb := splitBands_bands image background hin.x_lt
  intro b hbm
  obtain ⟨h0, h1⟩ := hb.rows b hbm
  obtain ⟨h2, h3⟩ := hb.columns b hbm
  have hy0 : b.y0 = y0 := h0
  have hy1 : b.y1 = y1 := h1
  refine ⟨⟨h2, h3.trans hin.x_le, ?_, ?_⟩, ?_⟩
  · rw [hy0, hy1]
    exact h.lt
  · rw [hy1]
    exact h.le
  · unfold height
    rw [hy0, hy1]
    exact h.height

theorem stripArea_pixels (h : Strip image y0 y1) (background : Color) :
    (stripArea image y0 y1 background).pixels ≤ image.width * (y1 - y0) := by
  have hin := stripArea_inside background h.lt h.le h.colors
  have hx := hin.x_le
  refine Nat.mul_le_mul ?_ le_rfl
  unfold width
  omega

/-- **One strip adds its layer** and its assertion holds. -/
theorem encodeStrip_sent {pixels : ℕ} (hw : w.Sent image caches B S pixels) (h : Strip image y0 y1)
    (hsize : image.pixels.length < 2 ^ 32) :
    ∃ w' B' S', encodeStrip image w y0 y1 = some w' ∧
      w'.Sent image caches B' S' (pixels + image.width * (y1 - y0)) := by
  have hbg := dominantColor_lt image ⟨0, image.width, y0, y1⟩
  unfold encodeStrip
  dsimp only
  generalize dominantColor image ⟨0, image.width, y0, y1⟩ = background at hbg
  have hin := stripArea_inside background h.lt h.le h.colors
  have hbands := splitBands_inside h background
  have hpixels := stripArea_pixels h background
  have hsum := (splitBands_bands image background hin.x_lt).pixels
  have hlt : (stripArea image y0 y1 background).pixels < 2 ^ 32 := by
    refine lt_of_le_of_lt (hpixels.trans ?_) hsize
    rw [image.size]
    exact Nat.mul_le_mul_left _ ((Nat.sub_le _ _).trans h.le)
  generalize stripArea image y0 y1 background = area at *
  rw [if_pos hin.x_lt]
  have hsent := bandsCost_sent hw (splitBands image area background) background
  generalize bandsCost image w (splitBands image area background) background = costed at *
  obtain ⟨banded, w₁⟩ := costed
  split
  · exact ⟨w₁, B, S, rfl, hsent.mono (Nat.le_add_right _ _)⟩
  · exact ⟨_, _, S, rfl, (addBands_sent hbg _ B S pixels w₁ hbands hsent).mono (by omega)⟩
  · rename_i data hr
    exact ⟨_, B, _, rfl, (addSubcodec_sent hsent (.inr ⟨rfl, hr⟩) hin hlt).mono (by omega)⟩
  · exact ⟨w₁, B, S, rfl, hsent.mono (Nat.le_add_right _ _)⟩
  · exact ⟨_, B, _, rfl, (addSubcodec_sent hsent (.inl ⟨rfl, rfl⟩) hin hlt).mono (by omega)⟩

/-- The rows up to the end of a strip hold more than one colour each. -/
theorem stripEnd_spec (image : Image) : ∀ (fuel y : ℕ), y ≤ image.height →
    y ≤ stripEnd image fuel y ∧ stripEnd image fuel y ≤ image.height ∧
      ∀ z, y ≤ z → z < stripEnd image fuel y → singleColor image z = false
  | 0, y, h => ⟨le_rfl, h, fun z h1 h2 => absurd h2 (Nat.not_lt.mpr h1)⟩
  | fuel + 1, y, h => by
    unfold stripEnd
    by_cases hc : y < image.height ∧ (!singleColor image y) = true
    · rw [if_pos hc]
      obtain ⟨h1, h2, h3⟩ := stripEnd_spec image fuel (y + 1) hc.1
      refine ⟨by omega, h2, fun z hz hlt => ?_⟩
      rcases Nat.eq_or_lt_of_le hz with rfl | hz
      · exact (Bool.not_eq_true' _).mp hc.2
      · exact h3 z hz hlt
    · rw [if_neg hc]
      exact ⟨le_rfl, h, fun z h1 h2 => absurd h2 (Nat.not_lt.mpr h1)⟩

theorem encodeRows_sent {stop : ℕ} (hstop : stop ≤ image.height)
    (hsize : image.pixels.length < 2 ^ 32) : ∀ (fuel y : ℕ) (w : Work) (B : List (Color × Area)) (S : List Subcodec),
    y ≤ stop → (∀ z, y ≤ z → z < stop → singleColor image z = false) → stop ≤ y + fuel →
    w.Sent image caches B S (image.width * y) →
    ∃ w' B' S', encodeRows image stop fuel y w = some w' ∧ w'.Sent image caches B' S' (image.width * stop)
  | 0, y, w, B, S, hle, _, hf, hw => by
    have : y = stop := by omega
    subst this
    exact ⟨w, B, S, rfl, hw⟩
  | fuel + 1, y, w, B, S, hle, hcol, hf, hw => by
    unfold encodeRows
    by_cases hy : y < stop
    · rw [if_pos hy]
      have hmin : min (y + maxBandHeight) stop = y + min maxBandHeight (stop - y) := by omega
      have hpos : 0 < maxBandHeight := by decide
      obtain ⟨w₁, B₁, S₁, he, hw₁⟩ := encodeStrip_sent hw
        (show Strip image y (min (y + maxBandHeight) stop) from ⟨by omega, by omega, by omega, hcol y le_rfl hy⟩) hsize
      rw [he]
      refine encodeRows_sent hstop hsize fuel _ w₁ B₁ S₁ (by omega) (fun z h1 h2 => hcol z (by omega) h2) (by omega) ?_
      rw [hmin, Nat.add_sub_cancel_left] at hw₁
      rw [Nat.mul_add]
      exact hw₁
    · have : y = stop := by omega
      subst this
      rw [if_neg hy]
      exact ⟨w, B, S, rfl, hw⟩

/-- **The strips of an image send bands and subcodecs only**, and cover no other pixel. -/
theorem encodeStrips_sent (hsize : image.pixels.length < 2 ^ 32) :
    ∀ (fuel y : ℕ) (w : Work) (B : List (Color × Area)) (S : List Subcodec), y ≤ image.height →
    image.height ≤ y + fuel → w.Sent image caches B S (image.width * y) →
    ∃ w' B' S', encodeStrips image fuel y w = some w' ∧ w'.Sent image caches B' S' (image.width * image.height)
  | 0, y, w, B, S, hle, hf, hw => by
    have : y = image.height := by omega
    subst this
    exact ⟨w, B, S, rfl, hw⟩
  | fuel + 1, y, w, B, S, hle, hf, hw => by
    unfold encodeStrips
    by_cases hy : y < image.height
    · rw [if_pos hy]
      by_cases hs : singleColor image y = true
      · rw [if_pos hs]
        refine encodeStrips_sent hsize fuel (y + 1) w B S hy (by omega) (hw.mono ?_)
        exact Nat.mul_le_mul_left _ (Nat.le_succ y)
      · rw [if_neg hs]
        dsimp only
        obtain ⟨h1, h2, h3⟩ := stripEnd_spec image image.height (y + 1) hy
        obtain ⟨w₁, B₁, S₁, he, hw₁⟩ := encodeRows_sent h2 hsize image.height y w B S (by omega) (fun z hz hlt => by
            rcases Nat.eq_or_lt_of_le hz with rfl | hz
            · exact Bool.eq_false_iff.mpr hs
            · exact h3 z hz hlt) (by omega) hw
        rw [he]
        exact encodeStrips_sent hsize fuel _ w₁ B₁ S₁ h2 (by omega) hw₁
    · have : y = image.height := by omega
      subst this
      rw [if_neg hy]
      exact ⟨w, B, S, rfl, hw⟩

end Clear
end Codec
end Farland
