/-
# ClearCodec is lossless

One encoder and one decoder at the two ends of a channel, over whole runs.
`Synced` ties the encoder's mirrors to the client's storages: the same
sequence number, the column storages mirrored once a pending reset is done,
and every glyph the encoder would name. Every stream decodes to exactly the
pixels it was made of and keeps `Synced`.

Key theorems: `decodeComposite_encode`, `decode_encode`, `run_lossless`.
-/
import Farland.Codec.Clear.Strips

namespace Farland
namespace Codec
namespace Clear

open LittleEndian Reader List Decoder

/-! ### The three layers -/

/-- `out` shows the whole image. -/
def Target.ShowsAll (t : Target) (out : List UInt8) (image : Image) : Prop :=
  ∀ x y, x < t.width → y < t.height → t.Shows out x y (image.at_ x y)

/-- A target of the image's size that a decoder accepts. -/
structure Target.For (t : Target) (image : Image) : Prop where
  width : t.width = image.width
  height : t.height = image.height
  width_le : t.width ≤ maxDimension
  height_le : t.height ≤ maxDimension

theorem Target.For.pixels {t : Target} {image : Image} (h : t.For image) : t.pixels = image.pixels.length := by
  rw [Target.pixels, h.width, h.height, image.size]

/-- At most 2^26 pixels. -/
theorem Target.For.length_le {t : Target} {image : Image} (h : t.For image) : image.pixels.length ≤ 2 ^ 26 := by
  calc image.pixels.length = t.width * t.height := h.pixels.symm
    _ ≤ maxDimension * maxDimension := Nat.mul_le_mul h.width_le h.height_le
    _ = 2 ^ 26 := rfl

theorem readLayers_write {residual bands subcodecs : List UInt8} (hr : residual.length < 2 ^ 32)
    (hb : bands.length < 2 ^ 32) (hs : subcodecs.length < 2 ^ 32) (o : ℕ) :
    ∃ o₁ o₂ o₃ r, readLayers ⟨Writer.u32le residual.length ++ Writer.u32le bands.length ++
        Writer.u32le subcodecs.length ++ residual ++ bands ++ subcodecs, o⟩ =
      .ok (⟨⟨residual, o₁⟩, ⟨bands, o₂⟩, ⟨subcodecs, o₃⟩⟩, r) := by
  refine ⟨o + 4 + 4 + 4, o + 4 + 4 + 4 + residual.length, o + 4 + 4 + 4 + residual.length + bands.length,
    ⟨[], o + 4 + 4 + 4 + residual.length + bands.length + subcodecs.length⟩, ?_⟩
  unfold readLayers
  simp only [append_assoc]
  refine (Parse.bind_ok (u32le_append residual.length _ o hr)).trans ?_
  refine (Parse.bind_ok (u32le_append bands.length _ _ hb)).trans ?_
  refine (Parse.bind_ok (u32le_append subcodecs.length _ _ hs)).trans ?_
  refine (Parse.bind_ok (sub_append residual _ _ rfl)).trans ?_
  refine (Parse.bind_ok (sub_append bands _ _ rfl)).trans ?_
  have hlast := sub_append subcodecs [] (o + 4 + 4 + 4 + residual.length + bands.length) rfl
  rw [append_nil] at hlast
  refine (Parse.bind_ok hlast).trans ?_
  exact (Parse.bind_ok (expectEnd_nil _ _)).trans rfl

/-- Pixels are left to the residual layer, or later layers paint all. -/
theorem decodeResidual_or {image : Image} {t : Target} {covered : List Bool} {out : List UInt8} (ht : t.For image)
    (hv : t.Valid out) (hlen : covered.length = image.pixels.length) (o : ℕ) :
    ∃ out', (if (Reader.mk (encodeResidual image covered) o).remaining ≠ 0 then
          decodeResidual ⟨encodeResidual image covered, o⟩ t out else .ok out) = .ok out' ∧ t.Valid out' ∧
      ∀ x y, x < t.width → y < t.height → covered[y * image.width + x]? = some false →
        t.Shows out' x y (image.at_ x y) := by
  have hsize : image.pixels.length < 2 ^ 32 := lt_of_le_of_lt ht.length_le (by decide)
  by_cases hnil : encodeResidual image covered = []
  · refine ⟨out, by rw [hnil]; rfl, hv, fun x y hx hy hc => ?_⟩
    -- nothing is left: every pixel is covered
    have hmem : false ∈ covered := mem_of_getElem? hc
    have hlt : covered.findIdx (· == false) < covered.length :=
      findIdx_lt_length_of_exists ⟨false, hmem, rfl⟩
    unfold encodeResidual at hnil
    rw [if_neg hlt.ne] at hnil
    have hpos : 0 < (residualRuns (image.pixels.zip covered)
        (image.pixels.getD (covered.findIdx (· == false)) 0) 0).length := residualRuns_length_pos _ _ _
    rw [hnil] at hpos
    exact absurd hpos (lt_irrefl 0)
  · rw [if_pos (by rw [Reader.remaining]; exact fun h => hnil (length_eq_zero_iff.mp h))]
    exact decodeResidual_encode o ht.width ht.height hv hlen hsize hnil

theorem encodeResidual_length_lt {image : Image} {t : Target} (ht : t.For image) {covered : List Bool}
    (hlen : covered.length = image.pixels.length) : (encodeResidual image covered).length < 2 ^ 32 := by
  have hle := ht.length_le
  unfold encodeResidual
  dsimp only
  split_ifs
  · decide
  · have := residualRuns_length (image.pixels.zip covered) (image.pixels.getD (covered.findIdx (· == false)) 0) 0
    rw [length_zip] at this
    omega

/-- **The layers of an image show all of it**, and the storages stay mirrored. -/
theorem decodeComposite_encode {e : Encoder} {s : Decoder} {image : Image} {t : Target} {out : List UInt8}
    (ht : t.For image) (hv : t.Valid out) (hm : Caches.Mirrored ⟨e.vbars, e.shortVbars⟩ s.allocateVbars) (o : ℕ) :
    ∃ composite e' s' out', e.encodeComposite image = some (composite, e') ∧
      decodeComposite s ⟨composite, o⟩ t out = some (.ok (s', out')) ∧
      Caches.Mirrored ⟨e'.vbars, e'.shortVbars⟩ s' ∧ s'.sequence = s.sequence ∧ s'.glyphs = s.glyphs ∧
      e'.sequence = e.sequence ∧ e'.glyphs = e.glyphs ∧ e'.cacheResetPending = e.cacheResetPending ∧
      t.Valid out' ∧ t.ShowsAll out' image := by
  have hle := ht.length_le
  have hctx : s.SameContext s.allocateVbars := by
    unfold allocateVbars
    split_ifs
    · exact ⟨rfl, rfl⟩
    · exact ⟨rfl, rfl⟩
  let w₀ : Work :=
    { vbars := e.vbars, shortVbars := e.shortVbars, seenVbars := e.seenVbars, seenShortVbars := e.seenShortVbars
      covered := List.replicate image.pixels.length false }
  have hw₀ : w₀.Sent image ⟨e.vbars, e.shortVbars⟩ [] [] (image.width * 0) := by
    refine ⟨rfl, rfl, nofun, nofun, length_replicate, fun i hi => ?_, Nat.zero_le _⟩
    rw [getElem?_replicate] at hi
    split_ifs at hi
    cases hi
  obtain ⟨w, B, S, hstrips, hw⟩ := encodeStrips_sent (by omega) image.height 0 w₀ [] [] (Nat.zero_le _)
    (Nat.zero_add _).ge hw₀
  have hsize := hw.size
  rw [← image.size] at hsize
  obtain ⟨o₁, o₂, o₃, r, hlayers⟩ := readLayers_write (encodeResidual_length_lt ht hw.length)
    (show w.bands.length < 2 ^ 32 by omega) (show w.subcodecs.length < 2 ^ 32 by omega) o
  obtain ⟨out₁, hres, hv₁, hshow⟩ := decodeResidual_or ht hv hw.length o₁
  -- the bands over what the residual layer left
  obtain ⟨s', out₂, hbands, hm', hctx', hp⟩ := decodeBandsLoop_write image ht.width_le ht.height_le B
    ⟨e.vbars, e.shortVbars⟩ s.allocateVbars (w.bands.length + 1) o₂ out₁
    (fun b hb => by
      obtain ⟨⟨h1, h2, h3, h4⟩, h5, h6⟩ := hw.bandOk b hb
      exact ⟨⟨h1, ht.width ▸ h2, h3, ht.height ▸ h4⟩, h5, h6⟩)
    hm hv₁ (by rw [hw.bands]; exact Nat.lt_succ_self _)
  rw [hw.bands] at hbands hm'
  obtain ⟨out₃, hsubs, hp'⟩ := decodeSubcodecs_write image ht.width_le ht.height_le S
    (w.subcodecs.length + 1) o₃ out₂ hp.valid
    (fun sub hsub => by
      obtain ⟨hs, h1, h2, h3, h4⟩ := hw.subcodecOk sub hsub
      refine ⟨hs, ⟨h1, ht.width ▸ h2, h3, ht.height ▸ h4⟩, ?_⟩
      have hx : sub.area.width ≤ image.width := by unfold Area.width; omega
      have hy : sub.area.height ≤ image.height := by unfold Area.height; omega
      have := Nat.mul_le_mul hx hy
      rw [← image.size] at this
      unfold Area.pixels
      omega)
    (by rw [hw.subcodecs]; exact Nat.lt_succ_self _)
  rw [← hw.subcodecs] at hsubs
  have henc : e.encodeComposite image = some (Writer.u32le (encodeResidual image w.covered).length ++
      Writer.u32le w.bands.length ++ Writer.u32le w.subcodecs.length ++ encodeResidual image w.covered ++ w.bands ++
      w.subcodecs, { e with
        vbars := w.vbars, shortVbars := w.shortVbars, seenVbars := w.seenVbars,
        seenShortVbars := w.seenShortVbars }) := by
    unfold Encoder.encodeComposite
    dsimp only
    rw [hstrips]
  refine ⟨_, _, s', out₃, henc, ?_, hm', hctx'.1.trans hctx.1, hctx'.2.trans hctx.2, rfl, rfl, rfl, hp'.valid, ?_⟩
  · unfold decodeComposite
    rw [hlayers]
    dsimp only
    rw [hres]
    dsimp only
    unfold decodeBands
    rw [Reader.remaining, hbands]
    dsimp only
    rw [Reader.remaining, hsubs]
  · intro x y hx hy
    by_cases hsub : ∃ a ∈ S.map (·.area), a.contains x y = true
    · exact hp'.shows x y hx hsub
    refine hp'.keeps x y _ hx (fun a ha => Bool.eq_false_iff.mpr fun h => hsub ⟨a, ha, h⟩) ?_
    by_cases hband : ∃ a ∈ B.map (·.2), a.contains x y = true
    · exact hp.shows x y hx hband
    refine hp.keeps x y _ hx (fun a ha => Bool.eq_false_iff.mpr fun h => hband ⟨a, ha, h⟩) ?_
    -- no later layer paints this pixel, so it is not covered
    have hxw : x < image.width := ht.width ▸ hx
    have hi : y * image.width + x < w.covered.length := by
      rw [hw.length, image.size]
      exact image.index_lt hxw (ht.height ▸ hy)
    refine hshow x y hx hy ?_
    rw [getElem?_eq_getElem hi, Option.some.injEq]
    refine Bool.eq_false_iff.mpr fun htrue => ?_
    obtain ⟨a, ha, hc⟩ := hw.covered (y * image.width + x) (by rw [getElem?_eq_getElem hi, htrue])
    rw [Nat.add_comm, Nat.add_mul_mod_self_right, Nat.mod_eq_of_lt hxw, Nat.add_mul_div_right _ _ image.width_pos,
      Nat.div_eq_of_lt hxw, Nat.zero_add] at hc
    rcases mem_append.mp ha with ha | ha
    · exact hband ⟨a, ha, hc⟩
    · exact hsub ⟨a, ha, hc⟩

/-! ### Glyphs -/

variable (image : Image)

/-- The whole of an image. -/
def Image.whole : Area := ⟨0, image.width, 0, image.height⟩

theorem Image.whole_inside : image.whole.Inside image.width image.height :=
  ⟨image.width_pos, le_rfl, image.height_pos, le_rfl⟩

theorem Image.area_whole : image.area image.whole = image.pixels := by
  refine ext_getElem? fun i => ?_
  have hp : image.whole.pixels = image.pixels.length := image.size.symm
  by_cases hi : i < image.pixels.length
  · rw [image.getElem?_area _ (hp ▸ hi), getElem?_eq_getElem hi]
    have hat : image.at_ (0 + i % image.width) (0 + i / image.width) = image.pixels[i] := by
      rw [Image.at_, zero_add, zero_add, Nat.div_add_mod', getD_eq_getElem?_getD,
        getElem?_eq_getElem hi, Option.getD_some]
    exact congrArg some hat
  · rw [getElem?_eq_none (by rw [image.area_length]; omega), getElem?_eq_none (by omega)]

/-- Replaying the pixels of an image shows all of it. -/
theorem paintAll_showsAll {image : Image} {t : Target} {out : List UInt8} (ht : t.For image) (hv : t.Valid out) :
    t.ShowsAll (RasterCursor.paintAll t ({ x0 := 0, y0 := 0, width := t.width }, out) image.pixels).2 image := by
  have hin : image.whole.Inside t.width t.height := by
    rw [ht.width, ht.height]
    exact image.whole_inside
  have hp : Paints image t image.whole out _ := paints_area hv hin
  rw [image.area_whole] at hp
  intro x y hx hy
  rw [ht.width]
  refine hp.shows x y (Area.contains_iff.mpr ⟨⟨Nat.zero_le x, ?_⟩, Nat.zero_le y, ?_⟩)
  · exact lt_of_lt_of_eq hx ht.width
  · exact lt_of_lt_of_eq hy ht.height

/-- What the client stores of a rectangle that shows an image. -/
theorem Target.read_showsAll {image : Image} {t : Target} {out : List UInt8} (ht : t.For image)
    (h : t.ShowsAll out image) : t.read out = image.pixels := by
  rw [← image.area_whole, Image.area, show image.whole.pixels = t.pixels from
    (ht.pixels.trans image.size).symm]
  refine map_congr_left fun i hi => ?_
  rw [mem_range] at hi
  have hw : 0 < t.width := ht.width ▸ image.width_pos
  have hx : i % t.width < t.width := Nat.mod_lt _ hw
  have hy : i / t.width < t.height := Nat.div_lt_of_lt_mul hi
  rw [Target.get_of_shows (image.at_lt _ _) (h _ _ hx hy), ht.width]
  change _ = image.at_ (0 + i % image.width) (0 + i / image.width)
  rw [zero_add, zero_add]

/-- The client has every glyph the encoder would name. -/
structure GlyphMirrors (cache : GlyphCache) (glyphs : List Entry) : Prop where
  size : glyphs = [] ∨ glyphs.length = glyphCacheSize
  slots : cache.slots = [] ∨ cache.slots.length = glyphCacheSize
  same : ∀ (i : ℕ) (slot : GlyphSlot), cache.slots[i]? = some slot → slot.pixels ≠ [] →
    glyphs[i]? = some ⟨slot.pixels, true⟩

theorem Image.pixels_ne_nil : image.pixels ≠ [] := by
  rw [← length_pos_iff, image.size]
  exact mul_pos image.width_pos image.height_pos

/-- What `find` does: a slot with the image, or nothing. -/
theorem GlyphMirrors.find {cache : GlyphCache} {glyphs : List Entry} (h : GlyphMirrors cache glyphs) (image : Image) :
    cache.find image = (none, cache) ∨ ∃ i cache', cache.find image = (some i, cache') ∧ i < glyphCacheSize ∧
      glyphs[i]? = some ⟨image.pixels, true⟩ ∧ GlyphMirrors cache' glyphs := by
  unfold GlyphCache.find
  split
  · exact .inl rfl
  rename_i i _
  dsimp only
  split_ifs with hc
  · exact .inl rfl
  push Not at hc
  have hslot : ∃ slot, cache.slots[i]? = some slot ∧ slot.pixels = image.pixels := by
    rw [getD_eq_getElem?_getD] at hc
    cases hs : cache.slots[i]? with
    | none =>
      rw [hs] at hc
      exact absurd hc.2.2.symm image.pixels_ne_nil
    | some slot =>
      rw [hs] at hc
      exact ⟨slot, rfl, hc.2.2⟩
  obtain ⟨slot, hs, hpix⟩ := hslot
  have hglyph := h.same i slot hs (by rw [hpix]; exact image.pixels_ne_nil)
  have hlt : i < cache.slots.length := (List.getElem?_eq_some_iff.mp hs).1
  have hi : i < glyphCacheSize := by
    rcases h.slots with h0 | h0
    · rw [h0] at hlt
      cases hlt
    · exact h0 ▸ hlt
  refine .inr ⟨i, _, rfl, hi, hpix ▸ hglyph, h.size, .inr ?_, fun j slot' hj hne => ?_⟩
  · rw [length_set]
    rcases h.slots with h0 | h0
    · rw [h0] at hlt
      cases hlt
    · exact h0
  · by_cases hij : i = j
    · subst hij
      rw [getElem?_set_self hlt] at hj
      cases hj
      rw [getD_eq_getElem?_getD, hs] at hne ⊢
      exact hglyph
    · rw [getElem?_set_ne hij] at hj
      exact h.same j slot' hj hne

theorem leastRecent_lt {slots : List GlyphSlot} (h : slots ≠ []) : GlyphCache.leastRecent slots < slots.length := by
  have hfold : ∀ (l : List (GlyphSlot × ℕ)) (best : ℕ), best < slots.length → (∀ p ∈ l, p.2 < slots.length) →
      l.foldl (fun best p => if p.1.lastUse < (slots.getD best {}).lastUse then p.2 else best) best <
        slots.length := by
    intro l
    induction l with
    | nil => exact fun _ hb _ => hb
    | cons p l ih =>
      intro best hb hl
      refine ih _ ?_ fun q hq => hl q (mem_cons_of_mem _ hq)
      dsimp only
      split_ifs
      · exact hl p mem_cons_self
      · exact hb
  refine hfold _ 0 (length_pos_iff.mpr h) fun p hp => ?_
  have := snd_lt_of_mem_zipIdx hp
  omega

theorem allocateGlyphs_length {s : Decoder} (h : s.glyphs = [] ∨ s.glyphs.length = glyphCacheSize) :
    s.allocateGlyphs.glyphs.length = glyphCacheSize := by
  unfold allocateGlyphs
  split_ifs with hn
  · rw [hn]
    simp [resize]
  · exact h.resolve_left hn

/-- Both sides store a new glyph in the same slot. -/
theorem GlyphMirrors.insert {cache : GlyphCache} {s : Decoder} (h : GlyphMirrors cache s.glyphs) (image : Image) :
    (cache.insert image).1 < glyphCacheSize ∧ GlyphMirrors (cache.insert image).2
        (s.allocateGlyphs.glyphs.set (cache.insert image).1 ⟨image.pixels, true⟩) := by
  have hglyphs := allocateGlyphs_length h.size
  unfold GlyphCache.insert
  dsimp only
  generalize hslots : (if cache.slots = [] then List.replicate glyphCacheSize ({} : GlyphSlot) else cache.slots) = slots
  have hlen : slots.length = glyphCacheSize := by
    rw [← hslots]
    split_ifs with hs
    · rw [length_replicate]
    · exact h.slots.resolve_left hs
  have hne : slots ≠ [] := by
    intro hn
    rw [hn] at hlen
    cases hlen
  have hsame : ∀ (i : ℕ) (slot : GlyphSlot), slots[i]? = some slot → slot.pixels ≠ [] →
      s.allocateGlyphs.glyphs[i]? = some ⟨slot.pixels, true⟩ := by
    intro i slot hi hp
    rw [← hslots] at hi
    split_ifs at hi with hs
    · rw [getElem?_replicate] at hi
      split_ifs at hi
      cases hi
      exact absurd rfl hp
    · have := h.same i slot hi hp
      unfold allocateGlyphs
      rw [if_neg fun hn => by rw [hn] at this; cases this]
      exact this
  generalize hv : (if decide (cache.used < slots.length) = true then cache.used
    else GlyphCache.leastRecent slots) = victim
  have hlt : victim < glyphCacheSize := by
    rw [← hv, ← hlen]
    split_ifs with hr
    · exact of_decide_eq_true hr
    · exact leastRecent_lt hne
  have hmod : victim % 2 ^ 16 = victim := Nat.mod_eq_of_lt (hlt.trans (by decide))
  rw [hmod]
  refine ⟨hlt, .inr (by rw [length_set, hglyphs]), .inr (by rw [length_set, hlen]), fun i slot hi hp => ?_⟩
  by_cases hvi : victim = i
  · subst hvi
    rw [getElem?_set_self (by rw [hlen]; exact hlt)] at hi
    cases hi
    exact getElem?_set_self (by rw [hglyphs]; exact hlt)
  · rw [getElem?_set_ne hvi] at hi
    rw [getElem?_set_ne hvi]
    exact hsame i slot hi hp

/-! ### Streams -/

/-- What the header of a stream does to a decoder. -/
def Decoder.startStream (s : Decoder) (reset : Bool) : Decoder :=
  let s := { s with sequence := (s.sequence + 1) % 256 }
  if reset then { s with vbarCursor := 0, shortVbarCursor := 0 } else s

variable {s : Decoder} {t : Target} {image : Image} {out : List UInt8} {e : Encoder}

theorem readStreamHeader_write {flags : ℕ} (hf : flags < 8)
    (hg : flags &&& flagGlyphHit ≠ 0 → flags &&& flagGlyphIndex ≠ 0) (hs : s.sequence < 256) (rest : List UInt8) :
    readStreamHeader s ⟨Writer.u8 flags ++ Writer.u8 s.sequence ++ rest, 0⟩ =
      .ok (flags, s.startStream (flags &&& flagCacheReset ≠ 0), ⟨rest, 2⟩) := by
  have hknown : ∀ f < 8, ¬ f &&& (0xFF ^^^ knownFlags) ≠ 0 := by decide
  unfold readStreamHeader
  rw [append_assoc, show u8 ⟨Writer.u8 flags ++ _, 0⟩ = _ from u8_append flags _ 0 (by omega)]
  dsimp only
  rw [show u8 ⟨Writer.u8 s.sequence ++ rest, 0 + 1⟩ = _ from u8_append s.sequence rest (0 + 1) hs]
  dsimp only
  rw [if_neg (hknown flags hf), if_neg (not_not_intro rfl), if_neg fun h => hg h.1 h.2]
  unfold startStream
  simp only [decide_eq_true_eq]

/-- Both ends agree on what the client has stored. A reset that the encoder
has not sent yet puts the cursors back first. -/
structure Synced (e : Encoder) (s : Decoder) : Prop where
  sequence : s.sequence = e.sequence
  sequence_lt : e.sequence < 256
  columns : Caches.Mirrored ⟨e.vbars, e.shortVbars⟩ (s.startStream e.cacheResetPending).allocateVbars
  glyphs : GlyphMirrors e.glyphs s.glyphs

theorem Caches.Mirrored.congr {caches : Caches} {s' : Decoder} (h : caches.Mirrored s.allocateVbars)
    (h1 : s'.vbars = s.vbars) (h2 : s'.shortVbars = s.shortVbars) (h3 : s'.vbarCursor = s.vbarCursor)
    (h4 : s'.shortVbarCursor = s.shortVbarCursor) : caches.Mirrored s'.allocateVbars := by
  have hv := h.vbars
  have hs := h.shortVbars
  unfold allocateVbars at *
  rw [h1]
  split_ifs at * with hn
  · exact ⟨by rw [← h3] at hv; exact hv, by rw [← h2, ← h4] at hs; exact hs⟩
  · exact ⟨by rw [h1, h3]; exact hv, by rw [h2, h4]; exact hs⟩

theorem Caches.Mirrored.allocateVbars {caches : Caches} (h : caches.Mirrored s) :
    caches.Mirrored s.allocateVbars := by
  have hsize := h.vbars.size
  unfold Decoder.allocateVbars
  rw [if_neg fun hn => by rw [hn] at hsize; cases hsize]
  exact h

/-- What the glyph cache says of an image, and what it means for the client. -/
theorem lookupGlyph_cases (h : GlyphMirrors e.glyphs s.glyphs) (image : Image) (glyphCache : Bool) :
    e.lookupGlyph image glyphCache = (none, e) ∨
      (∃ i glyphs, e.lookupGlyph image glyphCache = (some (i, true), { e with glyphs := glyphs }) ∧
        image.pixels.length ≤ maxGlyphPixels ∧ i < glyphCacheSize ∧ s.glyphs[i]? = some ⟨image.pixels, true⟩ ∧
        GlyphMirrors glyphs s.glyphs) ∨
      ∃ i glyphs, e.lookupGlyph image glyphCache = (some (i, false), { e with glyphs := glyphs }) ∧
        image.pixels.length ≤ maxGlyphPixels ∧ i < glyphCacheSize ∧
        GlyphMirrors glyphs (s.allocateGlyphs.glyphs.set i ⟨image.pixels, true⟩) := by
  unfold Encoder.lookupGlyph
  split_ifs with hc
  · right
    rcases h.find image with hf | ⟨i, glyphs, hf, hi, hg, hm⟩
    · right
      obtain ⟨hi, hm⟩ := h.insert image
      rw [hf]
      exact ⟨_, _, rfl, hc.2, hi, hm⟩
    · left
      rw [hf]
      exact ⟨i, glyphs, rfl, hc.2, hi, hg, hm⟩
  · exact .inl rfl

/-- A decoder accepts the header and goes on behind it. -/
theorem decode_header {flags : ℕ} (ht : t.For image)
    (hv : t.Valid out) (hf : flags < 8) (hg : flags &&& flagGlyphHit ≠ 0 → flags &&& flagGlyphIndex ≠ 0)
    (hs : s.sequence < 256) (rest : List UInt8) :
    s.decode (Writer.u8 flags ++ Writer.u8 s.sequence ++ rest) t.width t.height out t.stride =
      if flags &&& flagGlyphIndex ≠ 0 then
        decodeGlyph (s.startStream (flags &&& flagCacheReset ≠ 0)) ⟨rest, 2⟩ t (flags &&& flagGlyphHit ≠ 0) out
      else decodeComposite (s.startStream (flags &&& flagCacheReset ≠ 0)) ⟨rest, 2⟩ t out := by
  have h1 : ¬ (t.width = 0 ∨ t.height = 0) := by
    have := image.width_pos
    have := image.height_pos
    rw [ht.width, ht.height]
    omega
  have h2 : ¬ (t.width > maxDimension ∨ t.height > maxDimension) := by
    have := ht.width_le
    have := ht.height_le
    omega
  unfold decode
  rw [if_neg h1, if_neg h2]
  rw [if_pos hv, readStreamHeader_write hf hg hs]

theorem startStream_glyphs (s : Decoder) (reset : Bool) : (s.startStream reset).glyphs = s.glyphs := by
  unfold startStream
  split_ifs
  · rfl
  · rfl

theorem startStream_sequence (s : Decoder) (reset : Bool) :
    (s.startStream reset).sequence = (s.sequence + 1) % 256 := by
  unfold startStream
  split_ifs
  · rfl
  · rfl

/-- A glyph hit shows the stored image. -/
theorem decodeGlyph_hit {i : ℕ} (ht : t.For image)
    (hle : image.pixels.length ≤ maxGlyphPixels) (hi : i < glyphCacheSize)
    (hg : s.glyphs[i]? = some ⟨image.pixels, true⟩) :
    decodeGlyph s ⟨Writer.u16le i, 2⟩ t true out =
      some (.ok (s, (RasterCursor.paintAll t ({ x0 := 0, y0 := 0, width := t.width }, out) image.pixels).2)) := by
  have hsize : ¬ t.pixels > maxGlyphPixels := by
    rw [ht.pixels]
    exact not_lt.mpr hle
  have halloc : s.allocateGlyphs = s := by
    unfold allocateGlyphs
    rw [if_neg fun hn => by rw [hn] at hg; cases hg]
  have hread := u16le_append i [] 2 (hi.trans (by decide))
  unfold decodeGlyph
  rw [if_neg hsize, show u16le ⟨Writer.u16le i, 2⟩ = _ from hread]
  dsimp only
  rw [if_neg (not_le.mpr hi), halloc, hg]
  dsimp only
  rw [if_pos rfl, if_neg (by simp [ht.pixels]), expectEnd_nil, ht.pixels, take_length]

/-- A new glyph is stored as it was painted. -/
theorem decodeGlyph_miss {out' composite : List UInt8} {s' : Decoder} {i : ℕ}
    (ht : t.For image) (hle : image.pixels.length ≤ maxGlyphPixels) (hi : i < glyphCacheSize)
    (hs : s.glyphs = [] ∨ s.glyphs.length = glyphCacheSize)
    (hd : decodeComposite s.allocateGlyphs ⟨composite, 2 + 2⟩ t out = some (.ok (s', out')))
    (hshow : t.ShowsAll out' image) :
    decodeGlyph s ⟨Writer.u16le i ++ composite, 2⟩ t false out =
      some (.ok ({ s' with glyphs := s'.glyphs.set i ⟨image.pixels, true⟩ }, out')) := by
  have hsize : ¬ t.pixels > maxGlyphPixels := by
    rw [ht.pixels]
    exact not_lt.mpr hle
  have hlen := allocateGlyphs_length hs
  unfold decodeGlyph
  rw [if_neg hsize, show u16le ⟨Writer.u16le i ++ composite, 2⟩ = _ from
    u16le_append i composite 2 (hi.trans (by decide))]
  dsimp only
  rw [if_neg (not_le.mpr hi), getElem?_eq_getElem (hlen ▸ hi)]
  dsimp only
  rw [if_neg Bool.false_ne_true, hd]
  dsimp only
  rw [Target.read_showsAll ht hshow]

/-- **One stream**: the decoder accepts what the encoder made, shows every
pixel of it, and both ends still agree. -/
theorem decode_encode (h : Synced e s) {region : ImageView} (hr : region.Valid)
    {stride : ℕ} (hv : Target.Valid ⟨stride, region.width, region.height⟩ out)
    (glyphCache : Bool) :
    ∃ stream e' s' out', e.encode region glyphCache = some (stream, e') ∧
      s.decode stream region.width region.height out stride = some (.ok (s', out')) ∧
      Target.ShowsAll ⟨stride, region.width, region.height⟩ out' (load region hr) ∧ Synced e' s' := by
  generalize hstream : (⟨stride, region.width, region.height⟩ : Target) = t at hv ⊢
  have ht : t.For (load region hr) := by
    rw [← hstream]
    exact ⟨rfl, rfl, hr.1.2, hr.2.1.2⟩
  have hdec : ∀ stream, s.decode stream region.width region.height out stride =
      s.decode stream t.width t.height out t.stride := by
    intro stream
    rw [← hstream]
  have hseq := h.sequence
  have hlt := h.sequence_lt
  have hsum : (e.sequence + 1) % 256 < 256 := Nat.mod_lt _ (by decide)
  -- the reset flag as the decoder reads it back
  have hflag : ∀ f < 4, ∀ p : Bool, (if p then flagCacheReset else 0) ||| f < 8 ∧
      decide (((if p then flagCacheReset else 0) ||| f) &&& flagCacheReset ≠ 0) = p ∧
      ((if p then flagCacheReset else 0) ||| f) &&& flagGlyphIndex = f &&& flagGlyphIndex ∧
      ((if p then flagCacheReset else 0) ||| f) &&& flagGlyphHit = f &&& flagGlyphHit := by decide
  have hgl : GlyphMirrors { e with cacheResetPending := false }.glyphs s.glyphs := h.glyphs
  simp only [hdec]
  unfold Encoder.encode
  rw [dif_pos hr]
  dsimp only
  rcases lookupGlyph_cases hgl (load region hr) glyphCache with hl | ⟨i, glyphs, hl, hle, hi, hg, hm⟩ |
    ⟨i, glyphs, hl, hle, hi, hm⟩
  · obtain ⟨hf8, hreset, hindex, hhit⟩ := hflag 0 (by decide) e.cacheResetPending
    rw [Nat.or_zero] at hf8 hreset hindex hhit
    obtain ⟨composite, e', s', out', henc, hcomp, hmir, hsq, hgs, heq, heg, hep, hv', hshow⟩ :=
      decodeComposite_encode (e := { e with cacheResetPending := false, sequence := (e.sequence + 1) % 256 })
        ht hv h.columns 2
    rw [hl]
    rw [henc]
    refine ⟨_, e', s', out', rfl, ?_, hshow, ?_, ?_, ?_, ?_⟩
    · rw [← hseq, decode_header ht hv hf8 (by rw [hhit]; exact fun h => absurd rfl h) (hseq ▸ hlt), hindex, hreset]
      exact hcomp
    · rw [hsq, startStream_sequence, heq, hseq]
    · rw [heq]
      exact hsum
    · rw [hep]
      exact hmir.allocateVbars.congr rfl rfl rfl rfl
    · rw [heg, hgs, startStream_glyphs]
      exact h.glyphs
  · obtain ⟨hf8, hreset, hindex, hhit⟩ := hflag (flagGlyphIndex ||| flagGlyphHit) (by decide) e.cacheResetPending
    rw [hl]
    refine ⟨_, _, s.startStream e.cacheResetPending, _, rfl, ?_, paintAll_showsAll ht hv, ?_, hsum, ?_, ?_⟩
    · rw [Nat.or_assoc, ← hseq, decode_header ht hv hf8 (by rw [hindex]; exact fun _ => by decide) (hseq ▸ hlt),
      hindex, hreset,
        hhit]
      exact decodeGlyph_hit ht hle hi (by rw [startStream_glyphs]; exact hg)
    · rw [startStream_sequence, hseq]
    · exact h.columns.congr rfl rfl rfl rfl
    · rw [startStream_glyphs]
      exact hm
  · obtain ⟨hf8, hreset, hindex, hhit⟩ := hflag flagGlyphIndex (by decide) e.cacheResetPending
    have hcols : Caches.Mirrored ⟨e.vbars, e.shortVbars⟩
        (s.startStream e.cacheResetPending).allocateGlyphs.allocateVbars := by
      unfold allocateGlyphs
      split_ifs
      · exact h.columns.congr rfl rfl rfl rfl
      · exact h.columns
    have hseq' : (s.startStream e.cacheResetPending).allocateGlyphs.sequence = (s.sequence + 1) % 256 := by
      rw [← startStream_sequence s e.cacheResetPending]
      unfold allocateGlyphs
      split_ifs
      · rfl
      · rfl
    obtain ⟨composite, e', s', out', henc, hcomp, hmir, hsq, hgs, heq, heg, hep, hv', hshow⟩ :=
      decodeComposite_encode
        (e := { e with cacheResetPending := false, glyphs := glyphs, sequence := (e.sequence + 1) % 256 })
        ht hv hcols (2 + 2)
    rw [hl]
    rw [henc]
    refine ⟨_, e', { s' with glyphs := s'.glyphs.set i ⟨(load region hr).pixels, true⟩ }, out', rfl, ?_, hshow,
      ?_, ?_, ?_, ?_⟩
    · rw [append_assoc, ← hseq, decode_header ht hv hf8 (by rw [hindex]; exact fun _ => by decide) (hseq ▸ hlt),
      hindex, hreset,
        hhit]
      exact decodeGlyph_miss ht hle hi (by rw [startStream_glyphs]; exact h.glyphs.size) hcomp hshow
    · change s'.sequence = _
      rw [hsq, hseq', heq, hseq]
    · rw [heq]
      exact hsum
    · rw [hep]
      exact hmir.allocateVbars.congr rfl rfl rfl rfl
    · change GlyphMirrors e'.glyphs (s'.glyphs.set i _)
      rw [heg, hgs]
      unfold allocateGlyphs at hm ⊢
      rw [startStream_glyphs]
      split_ifs at hm ⊢
      · exact hm
      · rw [startStream_glyphs]
        exact hm

/-! ### Runs -/

/-- An operation on the channel. A reset of the encoder comes with the state
the decoder is put back to. -/
inductive Op where
  | encode (region : ImageView) (glyphCache : Bool) (out : List UInt8) (stride : ℕ)
  | reset (s : Decoder)
  deriving DecidableEq

/-- Every storage is empty or has its full size, the cursors are in range and
the next sequence number is 0. -/
structure Decoder.StorageOk (s : Decoder) : Prop where
  vbars : s.vbars = [] ∨ s.vbars.length = vbarCacheSize
  shortVbars : s.shortVbars = [] ∨ s.shortVbars.length = shortVbarCacheSize
  glyphs : s.glyphs = [] ∨ s.glyphs.length = glyphCacheSize
  vbarCursor : s.vbarCursor < vbarCacheSize
  shortVbarCursor : s.shortVbarCursor < shortVbarCacheSize
  sequence : s.sequence = 0

/-- `decode_bands` allocates both V-bar storages together. -/
structure Decoder.WellFormed (s : Decoder) : Prop extends s.StorageOk where
  together : s.vbars ≠ [] → s.shortVbars ≠ []

/-- The region is one the encoder accepts and the output one the decoder
accepts; a reset puts the decoder back to a state that `P` holds of. -/
def Op.Valid (P : Decoder → Prop) : Op → Prop
  | .encode region _ out stride => region.Valid ∧ Target.Valid ⟨stride, region.width, region.height⟩ out
  | .reset s => P s

/-- Each stream decodes to exactly the pixels of its region. -/
def Lossless : Encoder → Decoder → List Op → Prop
  | _, _, [] => True
  | e, _, .reset s :: ops => Lossless e.reset s ops
  | e, s, .encode region glyphCache out stride :: ops =>
    ∃ stream e' s' out', e.encode region glyphCache = some (stream, e') ∧
      s.decode stream region.width region.height out stride = some (.ok (s', out')) ∧
      (∀ x y, x < region.width → y < region.height →
        Target.Shows ⟨stride, region.width, region.height⟩ out' x y (region.color x y)) ∧
      Lossless e' s' ops

/-- A mirror with nothing in it, and a storage whose cursor was put back. -/
theorem Mirrors.fresh {capacity : ℕ} {entries : List Entry} (h : entries.length = capacity) (hpos : 0 < capacity) :
    Mirrors { capacity := capacity } capacity entries 0 := by
  refine ⟨rfl, h, rfl, hpos, .inl rfl, fun i slot hi => ?_⟩
  change ([] : List Slot)[i]? = some slot at hi
  cases hi

/-- A new context, whatever the client has stored. -/
theorem Decoder.WellFormed.synced (h : s.WellFormed) : Synced {} s := by
  refine ⟨h.sequence, Nat.zero_lt_succ _, ?_, h.glyphs, .inl rfl, fun i slot hi => ?_⟩
  · unfold allocateVbars
    split_ifs with hn
    · exact ⟨Mirrors.fresh (resize_length _ _) (by decide), Mirrors.fresh (resize_length _ _) (by decide)⟩
    · exact ⟨Mirrors.fresh (h.vbars.resolve_left hn) (by decide),
        Mirrors.fresh (h.shortVbars.resolve_left (h.together hn)) (by decide)⟩
  · change ([] : List GlyphSlot)[i]? = some slot at hi
    cases hi

theorem Synced.capacity (h : Synced e s) : e.reset = {} := by
  have h1 := h.columns.vbars.capacity_eq
  have h2 := h.columns.shortVbars.capacity_eq
  unfold Encoder.reset ColumnCache.clear
  rw [h1, h2]

theorem run_synced : ∀ (ops : List Op) (e : Encoder) (s : Decoder), Synced e s →
    (∀ op ∈ ops, op.Valid Decoder.WellFormed) → Lossless e s ops
  | [], _, _, _, _ => trivial
  | .reset s' :: ops, e, s, h, hops => by
    unfold Lossless
    rw [h.capacity]
    have hs' : s'.WellFormed := hops _ mem_cons_self
    exact run_synced ops {} s' hs'.synced fun op hop => hops op (mem_cons_of_mem _ hop)
  | .encode region glyphCache out stride :: ops, e, s, h, hops => by
    obtain ⟨hr, hv⟩ := hops _ mem_cons_self
    obtain ⟨stream, e', s', out', he, hd, hshow, hs⟩ := decode_encode h hr hv glyphCache
    refine ⟨stream, e', s', out', he, hd, fun x y hx hy => ?_, ?_⟩
    · rw [← load_at region hr hx hy]
      exact hshow x y hx hy
    · exact run_synced ops e' s' hs fun op hop => hops op (mem_cons_of_mem _ hop)

/-- **ClearCodec is lossless over every run**: a new encoder and a decoder
with anything in its storages, any regions, options and resets. -/
theorem run_lossless (s : Decoder) (ops : List Op) (hs : s.WellFormed)
    (hops : ∀ op ∈ ops, op.Valid Decoder.WellFormed) : Lossless {} s ops :=
  run_synced ops {} s hs.synced hops

/-- A region of two pixels sent twice, and once more after a reset. -/
theorem run_lossless_twoPixels :
    let region : ImageView := ⟨[1, 2, 3, 0, 4, 5, 6, 0], 2, 1, 8⟩
    let out := List.replicate 8 0
    Lossless {} {} [.encode region true out 8, .encode region true out 8, .reset {}, .encode region false out 8] := by
  intro region out
  have hfresh : Decoder.WellFormed {} :=
    { vbars := .inl rfl, shortVbars := .inl rfl, glyphs := .inl rfl, vbarCursor := by decide,
      shortVbarCursor := by decide, sequence := rfl, together := fun h => absurd rfl h }
  refine run_lossless {} _ hfresh fun op hop => ?_
  simp only [mem_cons, not_mem_nil, or_false] at hop
  rcases hop with rfl | rfl | rfl | rfl
  · exact ⟨by decide, by decide⟩
  · exact ⟨by decide, by decide⟩
  · exact hfresh
  · exact ⟨by decide, by decide⟩

/-- A black column beside one of 14 different colours, which is cheapest as a band. -/
def columnRegion : ImageView :=
  ⟨(List.range 14).flatMap fun i => [0, 0, 0, 0, UInt8.ofNat (i + 1), 0, 0, 0], 2, 14, 8⟩

/-- With a V-bar storage but no short one, `decode_bands` allocates nothing
and the first short V-bar is stored outside its storage. -/
theorem lossless_fails_without_shortVbars : ¬ ∀ (s : Decoder) (ops : List Op), s.StorageOk →
    (∀ op ∈ ops, op.Valid Decoder.StorageOk) → Lossless {} s ops := by
  intro h
  have hok : Decoder.StorageOk { vbars := List.replicate vbarCacheSize {} } :=
    { vbars := .inr length_replicate, shortVbars := .inl rfl, glyphs := .inl rfl, vbarCursor := by decide,
      shortVbarCursor := by decide, sequence := rfl }
  obtain ⟨stream, e', s', out', he, hd, -⟩ := h _ [.encode columnRegion false (List.replicate 112 0) 8] hok
    fun op hop => by
      rw [mem_singleton.mp hop]
      exact ⟨by decide +kernel, by decide +kernel⟩
  have hnone : ((Encoder.encode {} columnRegion false).bind fun p =>
      decode { vbars := List.replicate vbarCacheSize {} } p.1 2 14 (List.replicate 112 0) 8).isNone = true := by
    decide +kernel
  rw [he, Option.bind_some, show decode _ stream 2 14 _ 8 = _ from hd] at hnone
  cases hnone

end Clear
end Codec
end Farland
