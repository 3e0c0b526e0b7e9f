/-
# The stateless layers read back

The residual layer and the two subcodecs the encoder writes, decoded. The
runs of the residual layer stand for a colour for each pixel that is right
wherever no later layer paints (`residualColors`); an RLEX or a raw subcodec
stands for the pixels of its area.

Key theorems: `decodeResidual_encode`, `decodeSubcodec_write`.
-/
import Farland.Codec.Clear.Encoder
import Farland.Codec.Clear.Decoder
import Mathlib.Data.List.GetD
import Mathlib.Data.List.TakeWhile

namespace Farland
namespace Codec
namespace Clear

open LittleEndian Reader List RasterCursor

/-! ### Pixels that are right -/

/-- `out'` shows the image in the area `a` and what `out` did elsewhere. -/
structure Paints (image : Image) (t : Target) (a : Area) (out out' : List UInt8) : Prop where
  valid : t.Valid out'
  shows : ∀ x y, a.contains x y = true → t.Shows out' x y (image.at_ x y)
  keeps : ∀ x y c, x < t.width → a.contains x y = false → t.Shows out x y c → t.Shows out' x y c

theorem Area.contains_iff {a : Area} {x y : ℕ} :
    a.contains x y = true ↔ (a.x0 ≤ x ∧ x < a.x1) ∧ a.y0 ≤ y ∧ y < a.y1 := by
  simp [Area.contains, and_assoc]

/-- An area that is not empty and lies in the image. -/
structure Area.Inside (a : Area) (width height : ℕ) : Prop where
  x_lt : a.x0 < a.x1
  x_le : a.x1 ≤ width
  y_lt : a.y0 < a.y1
  y_le : a.y1 ≤ height

variable {t : Target} {a : Area} {image : Image} {out data : List UInt8}

theorem Image.area_length (image : Image) (a : Area) : (image.area a).length = a.pixels := by
  rw [Image.area, length_map, length_range]

theorem Image.getElem?_area (image : Image) (a : Area) {i : ℕ} (h : i < a.pixels) :
    (image.area a)[i]? = some (image.at_ (a.x0 + i % a.width) (a.y0 + i / a.width)) := by
  rw [Image.area, getElem?_map, getElem?_range h]
  rfl

theorem Image.area_lt (image : Image) (a : Area) : ∀ c ∈ image.area a, c < 2 ^ 24 := by
  intro c hc
  obtain ⟨i, -, rfl⟩ := mem_map.mp hc
  exact image.at_lt _ _

/-- The pixels of an area, painted over it. -/
theorem paints_area (hv : t.Valid out)
    (ha : a.Inside t.width t.height) :
    Paints image t a out
      (paintAll t ({ x0 := a.x0, y0 := a.y0, width := a.width }, out) (image.area a)).2 := by
  have hw : 0 < a.width := Nat.sub_pos_of_lt ha.x_lt
  have hx : a.x0 + a.width ≤ t.width := by
    have := ha.x_lt
    have := ha.x_le
    unfold Area.width
    omega
  have hy : a.y0 + a.height ≤ t.height := by
    have := ha.y_lt
    have := ha.y_le
    unfold Area.height
    omega
  obtain ⟨hv', -, hs, hk⟩ := paintAll_shows hw hx hy (image.area a)
    ({ x0 := a.x0, y0 := a.y0, width := a.width }, out) 0 hv (RasterCursor.At.start a.x0 a.y0 a.width)
    (by rw [image.area_length, Nat.zero_add]; exact le_rfl)
  refine ⟨hv', fun x y hc => ?_, fun x y c hx' hc => hk x y c hx' fun k hk' he => ?_⟩
  · obtain ⟨⟨h1, h2⟩, h3, h4⟩ := Area.contains_iff.mp hc
    -- the place of `(x, y)` in the raster order of the area
    have hxw : x - a.x0 < a.width := by unfold Area.width; omega
    have hyh : y - a.y0 < a.height := by unfold Area.height; omega
    have hmod : (x - a.x0 + a.width * (y - a.y0)) % a.width = x - a.x0 := by
      rw [Nat.add_mul_mod_self_left, Nat.mod_eq_of_lt hxw]
    have hdiv : (x - a.x0 + a.width * (y - a.y0)) / a.width = y - a.y0 := by
      rw [Nat.add_mul_div_left _ _ hw, Nat.div_eq_of_lt hxw, Nat.zero_add]
    have hlt : x - a.x0 + a.width * (y - a.y0) < a.pixels := by
      calc x - a.x0 + a.width * (y - a.y0) < a.width + a.width * (y - a.y0) := by omega
        _ = a.width * (y - a.y0 + 1) := by ring
        _ ≤ a.width * a.height := Nat.mul_le_mul_left _ hyh
    have := hs _ _ (image.getElem?_area a hlt)
    rw [Nat.zero_add, hmod, hdiv, Nat.add_sub_cancel' h1, Nat.add_sub_cancel' h3] at this
    exact this
  · rw [image.area_length] at hk'
    have hmod := Nat.mod_lt (0 + k) hw
    have hdiv : (0 + k) / a.width < a.height := Nat.div_lt_of_lt_mul (by rw [Nat.zero_add]; exact hk')
    have : a.contains x y = true := by
      have hxw : a.x0 + a.width = a.x1 := Nat.add_sub_cancel' ha.x_lt.le
      have hyh : a.y0 + a.height = a.y1 := Nat.add_sub_cancel' ha.y_lt.le
      rw [Area.contains_iff, he.1, he.2]
      exact ⟨⟨Nat.le_add_right _ _, by omega⟩, Nat.le_add_right _ _, by omega⟩
    rw [this] at hc
    cases hc

/-- `out'` shows the image in every area of `as` and what `out` did elsewhere. -/
structure PaintsAll (image : Image) (t : Target) (as : List Area) (out out' : List UInt8) : Prop where
  valid : t.Valid out'
  shows : ∀ x y, x < t.width → (∃ a ∈ as, a.contains x y = true) → t.Shows out' x y (image.at_ x y)
  keeps : ∀ x y c, x < t.width → (∀ a ∈ as, a.contains x y = false) → t.Shows out x y c → t.Shows out' x y c

theorem PaintsAll.nil (hv : t.Valid out) :
    PaintsAll image t [] out out :=
  ⟨hv, fun _ _ _ ⟨_, h, _⟩ => absurd h not_mem_nil, fun _ _ _ _ _ h => h⟩

theorem PaintsAll.cons {as : List Area} {out₁ out₂ : List UInt8}
    (h : Paints image t a out out₁) (hs : PaintsAll image t as out₁ out₂) : PaintsAll image t (a :: as) out out₂ := by
  refine ⟨hs.valid, fun x y hx => ?_, fun x y c hx hno hc => ?_⟩
  · rintro ⟨b, hb, hxy⟩
    by_cases hin : ∃ b ∈ as, b.contains x y = true
    · exact hs.shows x y hx hin
    · have hba : b = a := (mem_cons.mp hb).resolve_right fun hb' => hin ⟨b, hb', hxy⟩
      subst hba
      refine hs.keeps x y _ hx (fun b' hb' => ?_) (h.shows x y hxy)
      exact Bool.eq_false_iff.mpr fun h' => hin ⟨b', hb', h'⟩
  · exact hs.keeps x y c hx (fun b hb => hno b (mem_cons_of_mem _ hb)) (h.keeps x y c hx (hno a mem_cons_self) hc)

/-! ### Sequences of colours -/

theorem readMany_flatMap : ∀ (cs : List Color) (rest : List UInt8) (o : ℕ), (∀ c ∈ cs, c < 2 ^ 24) →
    ∃ o', readMany readBgr cs.length ⟨cs.flatMap writeBgr ++ rest, o⟩ = .ok (cs, ⟨rest, o'⟩)
  | [], rest, o, _ => ⟨o, rfl⟩
  | c :: cs, rest, o, h => by
    obtain ⟨o', ho'⟩ := readMany_flatMap cs rest (o + 3) fun d hd => h d (mem_cons_of_mem _ hd)
    refine ⟨o', ?_⟩
    rw [flatMap_cons, append_assoc]
    refine (Parse.bind_ok (readBgr_append c _ o (h c mem_cons_self))).trans ?_
    exact (Parse.bind_ok ho').trans rfl

theorem flatMap_writeBgr_length (cs : List Color) : (cs.flatMap writeBgr).length = 3 * cs.length := by
  induction cs with
  | nil => rfl
  | cons c cs ih =>
    rw [flatMap_cons, length_append, writeBgr_length, ih, length_cons]
    ring

/-! ### The residual layer -/

/-- The colours the runs stand for. -/
def residualColors : List (Color × Bool) → Color → ℕ → List Color
  | [], current, run => List.replicate run current
  | (c, covered) :: rest, current, run =>
    if covered = false ∧ c ≠ current then List.replicate run current ++ residualColors rest c 1
    else residualColors rest current (run + 1)

theorem residualColors_length : ∀ (l : List (Color × Bool)) (current : Color) (run : ℕ),
    (residualColors l current run).length = run + l.length
  | [], _, run => by simp [residualColors]
  | (c, covered) :: rest, current, run => by
    unfold residualColors
    split_ifs
    · rw [length_append, length_replicate, residualColors_length rest, length_cons]
      omega
    · rw [residualColors_length rest, length_cons]
      omega

theorem residualColors_run : ∀ (l : List (Color × Bool)) (current : Color) (run i : ℕ), i < run →
    (residualColors l current run)[i]? = some current
  | [], current, run, i, h => by simp [residualColors, h]
  | (c, covered) :: rest, current, run, i, h => by
    unfold residualColors
    split_ifs
    · rw [getElem?_append_left (by simpa using h)]
      simp [h]
    · exact residualColors_run rest current (run + 1) i (by omega)

/-- A pixel that no later layer paints has its own colour. -/
theorem residualColors_uncovered : ∀ (l : List (Color × Bool)) (current : Color) (run i : ℕ) (c : Color),
    l[i]? = some (c, false) → (residualColors l current run)[run + i]? = some c
  | (d, covered) :: rest, current, run, 0, c, h => by
    rw [getElem?_cons_zero, Option.some.injEq, Prod.mk.injEq] at h
    obtain ⟨rfl, rfl⟩ := h
    unfold residualColors
    split_ifs with hc
    · rw [getElem?_append_right (by simp)]
      simpa using residualColors_run rest d 1 0 one_pos
    · have : d = current := by
        by_contra hne
        exact hc ⟨rfl, hne⟩
      subst this
      exact residualColors_run rest d (run + 1) run (Nat.lt_succ_self run)
  | (d, covered) :: rest, current, run, i + 1, c, h => by
    unfold residualColors
    split_ifs
    · rw [getElem?_append_right (by simp), length_replicate, show run + (i + 1) - run = 1 + i by omega]
      exact residualColors_uncovered rest d 1 i c h
    · rw [show run + (i + 1) = run + 1 + i by omega]
      exact residualColors_uncovered rest current (run + 1) i c h

theorem residualRuns_length : ∀ (l : List (Color × Bool)) (current : Color) (run : ℕ),
    (residualRuns l current run).length ≤ 10 * (l.length + 1)
  | [], current, run => by
    have := (writeRunLength_length run).2
    rw [residualRuns, length_append, writeBgr_length]
    simpa using by omega
  | (c, covered) :: rest, current, run => by
    have := (writeRunLength_length run).2
    unfold residualRuns
    rw [length_cons]
    split_ifs
    · have := residualRuns_length rest c 1
      rw [length_append, length_append, writeBgr_length]
      omega
    · have := residualRuns_length rest current (run + 1)
      omega

theorem residualRuns_length_pos : ∀ (l : List (Color × Bool)) (current : Color) (run : ℕ),
    0 < (residualRuns l current run).length
  | [], current, run => by
    rw [residualRuns, length_append, writeBgr_length]
    omega
  | (c, covered) :: rest, current, run => by
    unfold residualRuns
    split_ifs
    · rw [length_append, length_append, writeBgr_length]
      omega
    · exact residualRuns_length_pos rest current (run + 1)

/-- One run in front of the others. -/
theorem decodeResidualRuns_cons (t : Target) {c : Color} {run : ℕ} (painted fuel : ℕ) (rest : List UInt8) (o : ℕ)
    (p : RasterCursor × List UInt8) (hc : c < 2 ^ 24) (hrun : 0 < run) (hlt : run < 2 ^ 32)
    (hle : painted + run ≤ t.pixels) :
    ∃ o', decodeResidualRuns t (fuel + 1) ⟨writeBgr c ++ writeRunLength run ++ rest, o⟩ painted p =
      decodeResidualRuns t fuel ⟨rest, o'⟩ (painted + run) (paintAll t p (List.replicate run c)) := by
  obtain ⟨o', ho'⟩ := readRunLength_append run rest (o + 3) hlt
  refine ⟨o', ?_⟩
  rw [decodeResidualRuns, append_assoc]
  have hne : (Reader.mk (writeBgr c ++ (writeRunLength run ++ rest)) o).empty = false := rfl
  rw [hne, readBgr_append c _ o hc]
  dsimp only
  rw [ho']
  dsimp only
  rw [if_neg (by decide), if_neg (by omega), if_neg (by omega), fill_eq]

/-- The pixels of the first run are there already, or the next pixel adds to it. -/
def StartsRun (l : List (Color × Bool)) (current : Color) (run : ℕ) : Prop :=
  0 < run ∨ ∃ c covered rest, l = (c, covered) :: rest ∧ (covered = false → c = current)

theorem decodeResidualRuns_spec : ∀ (l : List (Color × Bool)) (current : Color) (run painted fuel o : ℕ)
    (p : RasterCursor × List UInt8), StartsRun l current run → current < 2 ^ 24 → (∀ q ∈ l, q.1 < 2 ^ 24) →
    painted + run + l.length = t.pixels → run + l.length < 2 ^ 32 →
    (residualRuns l current run).length < fuel →
    decodeResidualRuns t fuel ⟨residualRuns l current run, o⟩ painted p =
      .ok (paintAll t p (residualColors l current run)).2
  | [], current, run, painted, fuel, o, p, hs, hc, _, hp, hlt, hf => by
    have hrun : 0 < run := by
      rcases hs with h | ⟨_, _, _, h, -⟩
      · exact h
      · cases h
    have hb := (writeRunLength_length run).1
    rw [residualRuns, length_append] at hf
    obtain ⟨fuel, rfl⟩ : ∃ f, fuel = f + 1 + 1 := ⟨fuel - 2, by omega⟩
    obtain ⟨o', ho'⟩ := decodeResidualRuns_cons t painted (fuel + 1) [] o p hc hrun hlt (by simp at hp; omega)
    rw [append_nil] at ho'
    rw [residualRuns, residualColors, ho', decodeResidualRuns, if_pos (show Reader.empty ⟨[], o'⟩ = true from rfl),
      if_neg]
    simpa using hp
  | (c, covered) :: rest, current, run, painted, fuel, o, p, hs, hc, hl, hp, hlt, hf => by
    rw [length_cons] at hp hlt
    have hl' : ∀ q ∈ rest, q.1 < 2 ^ 24 := fun q hq => hl q (mem_cons_of_mem _ hq)
    unfold residualRuns at hf ⊢
    unfold residualColors
    by_cases hcov : covered = false ∧ c ≠ current
    · have hrun : 0 < run := by
        rcases hs with h | ⟨c', cov', rest', h, himp⟩
        · exact h
        · cases h
          exact absurd (himp hcov.1) hcov.2
      rw [if_pos hcov, length_append, length_append, writeBgr_length] at hf
      obtain ⟨fuel, rfl⟩ : ∃ f, fuel = f + 1 := ⟨fuel - 1, by omega⟩
      rw [if_pos hcov, if_pos hcov]
      obtain ⟨o', ho'⟩ := decodeResidualRuns_cons t painted fuel (residualRuns rest c 1) o p hc hrun (by omega)
        (by omega)
      rw [ho', paintAll_append]
      exact decodeResidualRuns_spec rest c 1 (painted + run) fuel o' _ (.inl one_pos) (hl (c, covered) mem_cons_self)
        hl' (by omega) (by omega) (by omega)
    · rw [if_neg hcov] at hf
      rw [if_neg hcov, if_neg hcov]
      exact decodeResidualRuns_spec rest current (run + 1) painted fuel o p (.inl (Nat.succ_pos run)) hc hl'
        (by omega) (by omega) hf

/-- **The residual layer shows every pixel that no later layer paints.** -/
theorem decodeResidual_encode {covered : List Bool} (o : ℕ)
    (hw : t.width = image.width) (hh : t.height = image.height) (hv : t.Valid out)
    (hlen : covered.length = image.pixels.length) (hsize : image.pixels.length < 2 ^ 32)
    (hne : encodeResidual image covered ≠ []) :
    ∃ out', decodeResidual ⟨encodeResidual image covered, o⟩ t out = .ok out' ∧ t.Valid out' ∧
      ∀ x y, x < t.width → y < t.height → covered[y * image.width + x]? = some false →
        t.Shows out' x y (image.at_ x y) := by
  have hfirst : covered.findIdx (· == false) ≠ covered.length := by
    intro h
    rw [encodeResidual, if_pos h] at hne
    exact hne rfl
  have henc : encodeResidual image covered =
      residualRuns (image.pixels.zip covered) (image.pixels.getD (covered.findIdx (· == false)) 0) 0 := if_neg hfirst
  have hzip : (image.pixels.zip covered).length = image.pixels.length := by
    rw [length_zip, hlen, min_self]
  have htp : t.pixels = image.pixels.length := by rw [Target.pixels, hw, hh, image.size]
  have hpos : 0 < image.pixels.length := by
    rw [image.size]
    exact mul_pos image.width_pos image.height_pos
  have hstart : StartsRun (image.pixels.zip covered) (image.pixels.getD (covered.findIdx (· == false)) 0) 0 := by
    right
    obtain ⟨c, cs, hcs⟩ := exists_cons_of_length_pos hpos
    obtain ⟨b, bs, hbs⟩ := exists_cons_of_length_pos (hlen ▸ hpos)
    refine ⟨c, b, cs.zip bs, by rw [hcs, hbs, zip_cons_cons], ?_⟩
    rintro rfl
    simp [hbs, hcs, findIdx_cons]
  have hcolors : ∀ q ∈ image.pixels.zip covered, q.1 < 2 ^ 24 := fun q hq => image.isColor q.1 (of_mem_zip hq).1
  have hdec := decodeResidualRuns_spec (t := t) (image.pixels.zip covered)
    (image.pixels.getD (covered.findIdx (· == false)) 0) 0 0
    ((residualRuns (image.pixels.zip covered) (image.pixels.getD (covered.findIdx (· == false)) 0) 0).length + 1) o
    ({ x0 := 0, y0 := 0, width := t.width }, out) hstart (image.getD_lt _) hcolors
    (by rw [hzip]; omega) (by rw [hzip]; omega) (Nat.lt_succ_self _)
  have hclen := residualColors_length (image.pixels.zip covered)
  obtain ⟨hv', -, hs, -⟩ := paintAll_shows (t := t) (hw ▸ image.width_pos) (zero_add t.width).le (zero_add t.height).le
    (residualColors (image.pixels.zip covered) (image.pixels.getD (covered.findIdx (· == false)) 0) 0)
    ({ x0 := 0, y0 := 0, width := t.width }, out) 0 hv (RasterCursor.At.start 0 0 t.width)
    (by rw [hclen, hzip, ← htp]; exact (zero_add _).le.trans (zero_add _).le)
  refine ⟨_, ?_, hv', fun x y hx hy hcov => ?_⟩
  · rw [henc]
    exact hdec
  · have hi : y * image.width + x < image.pixels.length := by
      rw [image.size]
      exact image.index_lt (hw ▸ hx) (hh ▸ hy)
    have hget : (image.pixels.zip covered)[y * image.width + x]? = some (image.at_ x y, false) := by
      rw [getElem?_zip_eq_some]
      refine ⟨?_, hcov⟩
      rw [Image.at_, getD_eq_getElem?_getD, getElem?_eq_getElem hi]
      rfl
    have hmod : (y * image.width + x) % t.width = x := by
      rw [hw, mul_comm, Nat.mul_add_mod, Nat.mod_eq_of_lt (hw ▸ hx)]
    have hdiv : (y * image.width + x) / t.width = y := by
      rw [hw, mul_comm, Nat.mul_add_div image.width_pos, Nat.div_eq_of_lt (hw ▸ hx), add_zero]
    have := hs _ _ (residualColors_uncovered _ _ 0 _ _ hget)
    rwa [zero_add, zero_add, zero_add, zero_add, hmod, hdiv] at this

/-! ### RLEX -/

theorem bitWidth_spec {v : ℕ} (h : 0 < v) : v < 2 ^ bitWidth v ∧ (∀ k, v < 2 ^ k → bitWidth v ≤ k) := by
  have hv : v ≠ 0 := ne_of_gt h
  unfold bitWidth
  rw [if_neg hv]
  refine ⟨Nat.lt_log2_self, fun k hk => ?_⟩
  exact (Nat.log2_lt hv).mpr hk

theorem rlexIndexBits_spec {n : ℕ} (h1 : 1 ≤ n) (h2 : n ≤ maxPaletteSize) :
    n ≤ 2 ^ rlexIndexBits n ∧ 1 ≤ rlexIndexBits n ∧ rlexIndexBits n ≤ 7 := by
  unfold rlexIndexBits maxPaletteSize at *
  by_cases hn : n ≤ 2
  · rw [if_pos hn]
    omega
  · rw [if_neg hn]
    obtain ⟨hlt, hle⟩ := bitWidth_spec (v := n - 1) (by omega)
    refine ⟨by omega, ?_, hle 7 (by omega)⟩
    rcases eq_zero_or_pos (bitWidth (n - 1)) with h0 | h0
    · rw [h0] at hlt
      omega
    · exact h0

/-- The byte of a segment: suiteDepth above stopIndex. -/
theorem packed_spec {bits depth stop : ℕ} (hb : bits ≤ 7) (hd : depth ≤ 2 ^ (8 - bits) - 1) (hs : stop < 2 ^ bits) :
    depth <<< bits ||| stop < 256 ∧ (depth <<< bits ||| stop) &&& (2 ^ bits - 1) = stop ∧
      (depth <<< bits ||| stop) >>> bits = depth := by
  have he : depth <<< bits ||| stop = depth * 2 ^ bits + stop := by
    rw [← Nat.shiftLeft_add_eq_or_of_lt hs, Nat.shiftLeft_eq]
  have hpow : 2 ^ (8 - bits) * 2 ^ bits = 256 := by
    rw [← pow_add, Nat.sub_add_cancel (by omega)]
    rfl
  have hpos : 0 < 2 ^ (8 - bits) := Nat.two_pow_pos _
  rw [he, Nat.and_two_pow_sub_one_eq_mod, Nat.shiftRight_eq_div_pow]
  refine ⟨?_, ?_, ?_⟩
  · calc depth * 2 ^ bits + stop < depth * 2 ^ bits + 2 ^ bits := by omega
      _ = (depth + 1) * 2 ^ bits := by ring
      _ ≤ 2 ^ (8 - bits) * 2 ^ bits := Nat.mul_le_mul_right _ (by omega)
      _ = 256 := hpow
  · rw [Nat.mul_comm, Nat.mul_add_mod, Nat.mod_eq_of_lt hs]
  · rw [Nat.mul_comm, Nat.mul_add_div (Nat.two_pow_pos bits), Nat.div_eq_of_lt hs, Nat.add_zero]

/-- The palette holds the colour of every index. -/
theorem buildPalette_spec : ∀ (cs palette : List Color) (indices : List ℕ) {palette' : List Color} {indices' : List ℕ},
    buildPalette cs palette indices = some (palette', indices') → palette.length ≤ maxPaletteSize →
    (∃ new, palette' = palette ++ new ∧ ∀ c ∈ new, c ∈ cs) ∧ palette'.length ≤ maxPaletteSize ∧
      ∃ is, indices' = indices ++ is ∧ (∀ i ∈ is, i < palette'.length) ∧ is.map (palette'.getD · 0) = cs
  | [], palette, indices, palette', indices', h, hp => by
    cases h
    exact ⟨⟨[], (append_nil _).symm, nofun⟩, hp, [], (append_nil _).symm, nofun, rfl⟩
  | c :: rest, palette, indices, palette', indices', h, hp => by
    unfold buildPalette at h
    by_cases hc : c ∈ palette
    · rw [if_pos hc] at h
      obtain ⟨⟨new, hnew, hmem⟩, hle, is, his, hlt, hmap⟩ := buildPalette_spec rest _ _ h hp
      have hidx := idxOf_lt_length_iff.mpr hc
      refine ⟨⟨new, hnew, fun d hd => mem_cons_of_mem _ (hmem d hd)⟩, hle, palette.idxOf c :: is, ?_, ?_, ?_⟩
      · rw [his, append_assoc, singleton_append]
      · intro i hi
        rcases mem_cons.mp hi with rfl | hi
        · rw [hnew, length_append]
          omega
        · exact hlt i hi
      · rw [map_cons, hmap, hnew, getD_append _ _ _ _ hidx, getD_eq_getElem _ _ hidx, getElem_idxOf]
    · rw [if_neg hc] at h
      by_cases hfull : palette.length = maxPaletteSize
      · rw [if_pos hfull] at h
        cases h
      · rw [if_neg hfull] at h
        obtain ⟨⟨new, hnew, hmem⟩, hle, is, his, hlt, hmap⟩ :=
          buildPalette_spec rest _ _ h (by rw [length_append, length_singleton]; omega)
        rw [append_assoc, singleton_append] at hnew
        refine ⟨⟨c :: new, hnew, ?_⟩, hle, palette.length :: is, ?_, ?_, ?_⟩
        · intro d hd
          rcases mem_cons.mp hd with rfl | hd
          · exact mem_cons_self
          · exact mem_cons_of_mem _ (hmem d hd)
        · rw [his, append_assoc, singleton_append]
        · intro i hi
          rcases mem_cons.mp hi with rfl | hi
          · rw [hnew, length_append, length_cons]
            omega
          · exact hlt i hi
        · rw [map_cons, hmap, hnew, getD_append_right _ _ _ _ le_rfl, Nat.sub_self, getD_cons_zero]

theorem suiteLength_spec : ∀ (depth stop : ℕ) (l : List ℕ),
    suiteLength stop depth l ≤ depth ∧ suiteLength stop depth l ≤ l.length ∧
      l.take (suiteLength stop depth l) = List.range' (stop + 1) (suiteLength stop depth l)
  | 0, stop, l => by
    have h0 : suiteLength stop 0 l = 0 := by cases l <;> rfl
    rw [h0]
    exact ⟨le_rfl, Nat.zero_le _, rfl⟩
  | depth + 1, stop, [] => ⟨Nat.zero_le _, le_rfl, rfl⟩
  | depth + 1, stop, i :: rest => by
    obtain ⟨h1, h2, h3⟩ := suiteLength_spec depth (stop + 1) rest
    unfold suiteLength
    by_cases hi : i = stop + 1
    · rw [if_pos hi, length_cons, Nat.add_comm 1]
      refine ⟨by omega, by omega, ?_⟩
      rw [take_succ_cons, h3, hi, range'_succ]
    · rw [if_neg hi]
      exact ⟨Nat.zero_le _, Nat.zero_le _, rfl⟩

/-- A run of an index and the suite behind it. -/
theorem segment_split (start maxDepth : ℕ) (rest : List ℕ) :
    let run := (rest.takeWhile (· == start)).length
    let depth := suiteLength start maxDepth (rest.drop run)
    start :: rest = List.replicate run start ++ List.range' start (depth + 1) ++ (rest.drop run).drop depth := by
  intro run depth
  have hrun : rest.takeWhile (· == start) = List.replicate run start := by
    rw [eq_replicate_iff]
    exact ⟨rfl, fun b hb => beq_iff_eq.mp (mem_takeWhile_imp (p := (· == start)) hb)⟩
  have htake : rest.take run = List.replicate run start := by
    rw [← hrun]
    exact (prefix_iff_eq_take.mp ( takeWhile_prefix _)).symm
  have hsuite := (suiteLength_spec maxDepth start (rest.drop run)).2.2
  calc start :: rest = start :: (rest.take run ++ ((rest.drop run).take depth ++ (rest.drop run).drop depth)) := by
        rw [take_append_drop, take_append_drop]
    _ = start :: List.replicate run start ++ (List.range' (start + 1) depth ++ (rest.drop run).drop depth) := by
        rw [htake, hsuite, cons_append]
    _ = List.replicate run start ++ start :: (List.range' (start + 1) depth ++ (rest.drop run).drop depth) := by
        rw [← replicate_succ, replicate_succ', append_assoc, singleton_append]
    _ = List.replicate run start ++ List.range' start (depth + 1) ++ (rest.drop run).drop depth := by
        rw [range'_succ, append_assoc, cons_append]

/-- One segment in front of the others. -/
theorem decodeRlexSegments_cons (t : Target) {palette : List Color} {bits start depth : ℕ}
    (pixels painted run fuel : ℕ) (rest : List UInt8) (o : ℕ) (p : RasterCursor × List UInt8) (hb : bits ≤ 7)
    (hpal : palette.length ≤ 2 ^ bits) (hd : depth ≤ 2 ^ (8 - bits) - 1) (hstop : start + depth < palette.length)
    (hrun : run < 2 ^ 32) (hle : painted + (run + depth + 1) ≤ pixels) :
    ∃ o', decodeRlexSegments t palette bits pixels (fuel + 1)
        ⟨Writer.u8 (depth <<< bits ||| start + depth) ++ writeRunLength run ++ rest, o⟩ painted p =
      decodeRlexSegments t palette bits pixels fuel ⟨rest, o'⟩ (painted + (run + depth + 1)) (paintAll t p
          ((List.replicate run start ++ List.range' start (depth + 1)).map (palette.getD · 0))) := by
  obtain ⟨hbyte, hand, hshift⟩ := packed_spec hb hd (lt_of_lt_of_le hstop hpal)
  obtain ⟨o', ho'⟩ := readRunLength_append run rest (o + 1) hrun
  refine ⟨o', ?_⟩
  rw [decodeRlexSegments, append_assoc]
  have hne : (Reader.mk (Writer.u8 (depth <<< bits ||| start + depth) ++ (writeRunLength run ++ rest)) o).empty =
    false := rfl
  rw [hne, show u8 ⟨Writer.u8 _ ++ _, o⟩ = _ from u8_append _ _ o hbyte]
  dsimp only
  rw [ho']
  dsimp only
  rw [hand, hshift, Nat.add_sub_cancel, if_neg (by decide), if_neg (by omega), if_neg (by omega),
    fill_eq, ← paintAll_append, map_append, map_replicate]

/-- Segments decode to the colours of their indices, and `rlexSegments` appends them. -/
theorem rlexSegments_spec (t : Target) {palette : List Color} {bits limit : ℕ} (pixels : ℕ) (hb : bits ≤ 7)
    (hpal : palette.length ≤ 2 ^ bits) : ∀ (fuel : ℕ) (is : List ℕ) (w w' : List UInt8),
    rlexSegments bits limit fuel is w = some w' → (∀ i ∈ is, i < palette.length) → is.length < 2 ^ 32 →
    (is ≠ [] → w'.length ≤ limit) ∧ ∃ segments, w' = w ++ segments ∧
      ∀ (fuel' o painted : ℕ) (p : RasterCursor × List UInt8), painted + is.length = pixels → segments.length < fuel' →
        decodeRlexSegments t palette bits pixels fuel' ⟨segments, o⟩ painted p =
          .ok (paintAll t p (is.map (palette.getD · 0))).2
  | fuel, [], w, w', h, _, _ => by
    rw [show rlexSegments bits limit fuel [] w = some w by cases fuel <;> rfl] at h
    cases h
    refine ⟨fun h => absurd rfl h, [], (append_nil _).symm, fun fuel' o painted p hp hf => ?_⟩
    obtain ⟨fuel', rfl⟩ : ∃ f, fuel' = f + 1 := ⟨fuel' - 1, by simp at hf; omega⟩
    rw [decodeRlexSegments, if_pos (show Reader.empty ⟨[], o⟩ = true from rfl), if_neg (by simpa using hp)]
    rfl
  | 0, i :: is, w, w', h, _, _ => by cases h
  | fuel + 1, start :: rest, w, w', h, hlt, hlen => by
    unfold rlexSegments at h
    dsimp only at h
    have hsplit := segment_split start (2 ^ (8 - bits) - 1) rest
    have hmaxd := (suiteLength_spec (2 ^ (8 - bits) - 1) start (rest.drop (rest.takeWhile (· == start)).length)).1
    dsimp only at hsplit
    generalize (rest.takeWhile (· == start)).length = run at h hsplit hmaxd
    generalize suiteLength start (2 ^ (8 - bits) - 1) (rest.drop run) = depth at h hsplit hmaxd
    generalize (rest.drop run).drop depth = tail at h hsplit
    have hcount : rest.length + 1 = run + (depth + 1 + tail.length) := by
      simpa using congrArg List.length hsplit
    rw [length_cons] at hlen
    split at h
    · cases h
    rename_i hlim
    have hstop : start + depth < palette.length := by
      apply hlt
      rw [hsplit]
      refine mem_append_left _ (mem_append_right _ ?_)
      rw [mem_range'_1]
      omega
    have htail : ∀ i ∈ tail, i < palette.length := by
      intro i hi
      apply hlt
      rw [hsplit]
      exact mem_append_right _ hi
    obtain ⟨hlimit, segments, hw', hdec⟩ := rlexSegments_spec t pixels hb hpal fuel tail _ _ h htail (by omega)
    refine ⟨fun _ => ?_, Writer.u8 (depth <<< bits ||| start + depth) ++ writeRunLength run ++ segments, ?_, ?_⟩
    · by_cases hnil : tail = []
      · rw [hnil, show ∀ x, rlexSegments bits limit fuel [] x = some x by intro x; cases fuel <;> rfl] at h
        cases h
        exact not_lt.mp hlim
      · exact hlimit hnil
    · rw [hw']
      simp only [append_assoc]
    · intro fuel' o painted p hp hf
      rw [length_cons] at hp
      rw [length_append, length_append, Writer.u8_length] at hf
      obtain ⟨fuel', rfl⟩ : ∃ f, fuel' = f + 1 := ⟨fuel' - 1, by omega⟩
      obtain ⟨o', ho'⟩ :=
        decodeRlexSegments_cons t pixels painted run fuel' segments o p hb hpal hmaxd hstop (by omega) (by omega)
      rw [ho', hdec fuel' o' _ _ (by omega) (by omega), ← paintAll_append, hsplit, ← map_append]

/-- **An RLEX subcodec decodes to the pixels of its area**, and is no larger than them. -/
theorem decodeRlex_encode
    (ha : a.Inside t.width t.height) (hsize : a.pixels < 2 ^ 32) (h : encodeRlex image a = some data)
    (out : List UInt8) (o : ℕ) :
    data.length ≤ 3 * a.pixels ∧ decodeRlex ⟨data, o⟩ t a.x0 a.y0 a.width a.height out =
      .ok (paintAll t ({ x0 := a.x0, y0 := a.y0, width := a.width }, out) (image.area a)).2 := by
  have hpos : 0 < a.pixels := Nat.mul_pos (Nat.sub_pos_of_lt ha.x_lt) (Nat.sub_pos_of_lt ha.y_lt)
  unfold encodeRlex at h
  split at h
  · cases h
  rename_i palette indices hpal
  obtain ⟨⟨new, hnew, hmem⟩, hle, is, his, hlt, hmap⟩ := buildPalette_spec _ _ _ hpal (Nat.zero_le _)
  subst hnew his
  have hlen : indices.length = a.pixels := by
    have := congrArg List.length hmap
    rwa [length_map, image.area_length] at this
  have hne : indices ≠ [] := by
    rw [← length_pos_iff, hlen]
    exact hpos
  have hp1 : 1 ≤ palette.length := by
    obtain ⟨i, l, hil⟩ := exists_cons_of_ne_nil hne
    exact Nat.one_le_of_lt (hlt i (by rw [hil]; exact mem_cons_self))
  have hcolors : ∀ c ∈ palette, c < 2 ^ 24 := fun c hc => image.area_lt a c (hmem c hc)
  obtain ⟨hbits, -, hb7⟩ := rlexIndexBits_spec hp1 hle
  obtain ⟨hlimit, segments, rfl, hdec⟩ :=
    rlexSegments_spec t (a.width * a.height) hb7 hbits _ _ _ _ h hlt (by rw [hlen]; exact hsize)
  refine ⟨hlimit hne, ?_⟩
  obtain ⟨o', ho'⟩ := readMany_flatMap palette segments (o + 1) hcolors
  unfold decodeRlex
  rw [append_assoc, show u8 ⟨Writer.u8 _ ++ _, o⟩ = _ from
    u8_append palette.length _ o (lt_of_le_of_lt hle (by decide))]
  dsimp only
  rw [if_neg (by omega), ho']
  refine (hdec _ _ _ _ (by rw [Nat.zero_add, hlen]; rfl) (Nat.lt_succ_self _)).trans ?_
  rw [hmap]

/-! ### One subcodec -/

/-- What the encoder sends as a subcodec for an area. -/
def IsSubcodec (image : Image) (a : Area) (id : ℕ) (data : List UInt8) : Prop :=
  (id = subcodecUncompressed ∧ data = (image.area a).flatMap writeBgr) ∨
    (id = subcodecRlex ∧ encodeRlex image a = some data)

theorem IsSubcodec.length_le {id : ℕ} (h : IsSubcodec image a id data)
    (ha : a.Inside t.width t.height) (hsize : a.pixels < 2 ^ 32) : data.length ≤ 3 * a.pixels := by
  rcases h with ⟨-, rfl⟩ | ⟨-, h⟩
  · rw [flatMap_writeBgr_length, image.area_length]
  · exact (decodeRlex_encode ha hsize h [] 0).1

theorem readSubcodecHeader_write {id : ℕ} (rest : List UInt8) (o : ℕ)
    (ha : a.Inside maxDimension maxDimension) (hid : id < 256) (hdata : data.length < 2 ^ 32) :
    ∃ o', readSubcodecHeader ⟨writeSubcodec a id data ++ rest, o⟩ =
      .ok ((a.x0, a.y0, a.width, a.height, data.length, id), ⟨data ++ rest, o'⟩) := by
  obtain ⟨h1, h2, h3, h4⟩ := ha
  unfold maxDimension at h2 h4
  have hw : a.width < 65536 := by unfold Area.width; omega
  have hh : a.height < 65536 := by unfold Area.height; omega
  refine ⟨o + 2 + 2 + 2 + 2 + 4 + 1, ?_⟩
  unfold writeSubcodec readSubcodecHeader
  refine (Parse.bind_ok (u16le_append a.x0 _ o (by omega))).trans ?_
  refine (Parse.bind_ok (u16le_append a.y0 _ _ (by omega))).trans ?_
  refine (Parse.bind_ok (u16le_append a.width _ _ hw)).trans ?_
  refine (Parse.bind_ok (u16le_append a.height _ _ hh)).trans ?_
  refine (Parse.bind_ok (u32le_append data.length _ _ hdata)).trans ?_
  exact (Parse.bind_ok (u8_append id _ _ hid)).trans rfl

/-- **A subcodec shows every pixel of its area.** -/
theorem decodeSubcodec_write {id : ℕ} (h : IsSubcodec image a id data) (rest : List UInt8) (o : ℕ) (hv : t.Valid out)
    (ha : a.Inside t.width t.height) (hwidth : t.width ≤ maxDimension) (hheight : t.height ≤ maxDimension)
    (hsize : 3 * a.pixels < 2 ^ 32) :
    ∃ o' out', decodeSubcodec ⟨writeSubcodec a id data ++ rest, o⟩ t out = .ok (⟨rest, o'⟩, out') ∧
      Paints image t a out out' := by
  have hle := h.length_le ha (by omega)
  have hid : id < 256 := by
    rcases h with ⟨rfl, -⟩ | ⟨rfl, -⟩
    all_goals decide
  have hraw : 3 * a.width * a.height = 3 * a.pixels := mul_assoc _ _ _
  have hx : a.x0 + a.width = a.x1 := Nat.add_sub_cancel' ha.x_lt.le
  have hy : a.y0 + a.height = a.y1 := Nat.add_sub_cancel' ha.y_lt.le
  obtain ⟨o₁, ho₁⟩ := readSubcodecHeader_write rest o
    ⟨ha.x_lt, ha.x_le.trans hwidth, ha.y_lt, ha.y_le.trans hheight⟩ hid (lt_of_le_of_lt hle hsize)
  refine ⟨o₁ + data.length, _, ?_, paints_area hv ha⟩
  have hxle := ha.x_le
  have hyle := ha.y_le
  unfold decodeSubcodec
  rw [ho₁]
  dsimp only
  rw [if_neg (by omega), if_neg (by omega), sub_append data rest o₁ rfl]
  dsimp only
  rcases h with ⟨rfl, rfl⟩ | ⟨rfl, h⟩
  · have hlen : ((image.area a).flatMap writeBgr).length = 3 * a.pixels := by
      rw [flatMap_writeBgr_length, image.area_length]
    obtain ⟨o₂, ho₂⟩ := readMany_flatMap (image.area a) [] o₁ (image.area_lt a)
    rw [append_nil, image.area_length] at ho₂
    rw [if_pos rfl, if_neg (by omega), show a.width * a.height = a.pixels from rfl, ho₂]
  · rw [if_neg (by decide), if_neg (by decide), if_pos rfl, (decodeRlex_encode ha (by omega) h out o₁).2]

/-- A subcodec to send: area, id and data. -/
structure Subcodec where
  area : Area
  id : ℕ
  data : List UInt8
  deriving DecidableEq

/-- **All subcodecs of a stream.** -/
theorem decodeSubcodecs_write (image : Image) (hwidth : t.width ≤ maxDimension)
    (hheight : t.height ≤ maxDimension) : ∀ (l : List Subcodec) (fuel o : ℕ) (out : List UInt8), t.Valid out →
    (∀ s ∈ l, IsSubcodec image s.area s.id s.data ∧ s.area.Inside t.width t.height ∧ 3 * s.area.pixels < 2 ^ 32) →
    (l.flatMap fun s => writeSubcodec s.area s.id s.data).length < fuel →
    ∃ out', decodeSubcodecs t fuel ⟨l.flatMap fun s => writeSubcodec s.area s.id s.data, o⟩ out = .ok out' ∧
      PaintsAll image t (l.map (·.area)) out out'
  | [], fuel, o, out, hv, _, hf => by
    obtain ⟨fuel, rfl⟩ : ∃ f, fuel = f + 1 := ⟨fuel - 1, by simp at hf; omega⟩
    exact ⟨out, rfl, .nil hv⟩
  | s :: l, fuel, o, out, hv, hl, hf => by
    obtain ⟨hsub, hin, hsize⟩ := hl s mem_cons_self
    have hlen : 13 ≤ (writeSubcodec s.area s.id s.data).length := by simp [writeSubcodec]; omega
    rw [flatMap_cons, length_append] at hf
    obtain ⟨fuel, rfl⟩ : ∃ f, fuel = f + 1 := ⟨fuel - 1, by omega⟩
    obtain ⟨o₁, out₁, hd, hp⟩ := decodeSubcodec_write hsub
      (l.flatMap fun s => writeSubcodec s.area s.id s.data) o hv hin hwidth hheight hsize
    obtain ⟨out₂, hd₂, hp₂⟩ := decodeSubcodecs_write image hwidth hheight l fuel o₁ out₁ hp.valid
      (fun s' hs' => hl s' (mem_cons_of_mem _ hs')) (by omega)
    refine ⟨out₂, ?_, .cons hp hp₂⟩
    rw [flatMap_cons, decodeSubcodecs, if_neg, hd]
    · exact hd₂
    · rw [Reader.empty, List.isEmpty_iff, ← length_eq_zero_iff, length_append]
      omega

end Clear
end Codec
end Farland
