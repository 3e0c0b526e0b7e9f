/-
# ClearCodec decoding stays inside its rectangle

Whatever a stream holds and whatever earlier streams left in the storages, a
call makes no access out of range, changes no byte outside the rectangle it
was given, and leaves every storage unallocated or in full size, also where it
refuses the stream half way. `Keeps I x Q` is the rule for one step: from a
canvas in `I` it does not break off and ends in `I`, and what it answers has
`Q`. The invariant `Inside` holds between any two steps of a call.

Key theorems: `Painting.decode_keeps`, **`Decoder.paint_contained`**.
-/
import Farland.Base.ReadBack
import Farland.Codec.Clear.Painting

namespace Farland
namespace Codec
namespace Clear

open Reader List Parse
open Handler (wp wp_bind wp_pure wp_act wp_update wp_mono)

/-! ### What a call may change -/

/-- A byte of the rectangle. -/
def Target.Covers (t : Target) (i : ℕ) : Prop := ∃ y < t.height, y * t.stride ≤ i ∧ i < y * t.stride + t.width * bytesPerPixel

/-- The bytes differ in the rectangle only. -/
structure Target.Within (t : Target) (out out' : List UInt8) : Prop where
  length : out'.length = out.length
  same : ∀ i, ¬ t.Covers i → out'[i]? = out[i]?

/-- A storage is not allocated, or in full size. -/
def Allocated (storage : List Entry) (size : ℕ) : Prop := storage = [] ∨ storage.length = size

structure Storages (s : Decoder) : Prop where
  vbars : Allocated s.vbars vbarCacheSize
  shortVbars : Allocated s.shortVbars shortVbarCacheSize
  glyphs : Allocated s.glyphs glyphCacheSize
  together : s.vbars ≠ [] → s.shortVbars.length = shortVbarCacheSize
  vbarCursor : s.vbarCursor < vbarCacheSize
  shortVbarCursor : s.shortVbarCursor < shortVbarCacheSize

theorem Target.Within.refl (t : Target) (out : List UInt8) : t.Within out out := ⟨rfl, fun _ _ => rfl⟩

theorem Target.Within.put {t : Target} {out out' : List UInt8} (hv : t.Valid out) (h : t.Within out out') {x y : ℕ}
    (hx : x < t.width) (hy : y < t.height) (c : Color) : t.Within out (t.put out' x y c) := by
  have hv' : t.Valid out' := ⟨hv.1, by rw [h.length]; exact hv.2⟩
  refine ⟨(put_length hv' hx hy c).trans h.length, fun i hi => ?_⟩
  have hfits : t.offset x y + (LittleEndian.leBytes 3 c ++ [0xFF]).length ≤ out'.length := by
    simpa using offset_lt hv' hx hy
  unfold Target.put
  rw [Ring.getElem?_overwrite hfits, if_neg]
  · exact h.same i hi
  · rintro ⟨h1, h2⟩
    have hlen : (LittleEndian.leBytes 3 c ++ [(0xFF : UInt8)]).length = 4 := by simp
    refine hi ⟨y, hy, ?_, ?_⟩ <;> simp only [Target.offset, bytesPerPixel] at h1 h2 ⊢ <;> omega

/-! ### The storages -/

theorem Allocated.of_length {storage storage' : List Entry} {size : ℕ} (h : Allocated storage size)
    (hlen : storage'.length = storage.length) : Allocated storage' size := by
  rcases h with rfl | h
  · exact .inl (eq_nil_of_length_eq_zero hlen)
  · exact .inr (hlen.trans h)

theorem Storages.new : Storages {} := ⟨.inl rfl, .inl rfl, .inl rfl, fun h => absurd rfl h, by decide, by decide⟩

variable {s : Decoder}

theorem Storages.allocateVbars (h : Storages s) : Storages s.allocateVbars ∧
    s.allocateVbars.vbars.length = vbarCacheSize ∧ s.allocateVbars.shortVbars.length = shortVbarCacheSize := by
  unfold Decoder.allocateVbars
  split_ifs with hempty
  · have hv := resize_length s.vbars vbarCacheSize
    have hs := resize_length s.shortVbars shortVbarCacheSize
    exact ⟨⟨.inr hv, .inr hs, h.glyphs, fun _ => hs, h.vbarCursor, h.shortVbarCursor⟩, hv, hs⟩
  · exact ⟨h, h.vbars.resolve_left hempty, h.together hempty⟩

theorem Storages.allocateGlyphs (h : Storages s) :
    Storages s.allocateGlyphs ∧ s.allocateGlyphs.glyphs.length = glyphCacheSize := by
  unfold Decoder.allocateGlyphs
  split_ifs with hempty
  · have hg := resize_length s.glyphs glyphCacheSize
    exact ⟨⟨h.vbars, h.shortVbars, .inr hg, h.together, h.vbarCursor, h.shortVbarCursor⟩, hg⟩
  · exact ⟨h, h.glyphs.resolve_left hempty⟩

/-- The storages are sound and the bytes differ in the rectangle only. -/
structure Inside (t : Target) (out : List UInt8) (k : Canvas) : Prop where
  storages : Storages k.decoder
  within : t.Within out k.out

/-- The same once the V-bar storages are allocated. -/
structure InBands (t : Target) (out : List UInt8) (k : Canvas) : Prop extends Inside t out k where
  vbars : k.decoder.vbars.length = vbarCacheSize
  shortVbars : k.decoder.shortVbars.length = shortVbarCacheSize

/-- The same while the pixels of a short V-bar are read. -/
structure InVbar (t : Target) (out : List UInt8) (slot size : ℕ) (k : Canvas) : Prop extends InBands t out k where
  entry : ∃ entry, k.decoder.shortVbars[slot]? = some entry ∧ entry.pixels.length = size

theorem InBands.withShort {t : Target} {out : List UInt8} {k : Canvas} (h : InBands t out k) (slot : ℕ)
    (entry : Entry) : InBands t out (k.withShort slot entry) := by
  have hlen : (k.withShort slot entry).decoder.shortVbars.length = k.decoder.shortVbars.length := length_set
  exact ⟨⟨⟨h.storages.vbars, h.storages.shortVbars.of_length hlen, h.storages.glyphs, fun _ => hlen.trans h.shortVbars,
    h.storages.vbarCursor, h.storages.shortVbarCursor⟩, h.within⟩, h.vbars, hlen.trans h.shortVbars⟩

namespace Painting

/-! ### Rules -/

/-- From a canvas in `I` the step does not break off and ends in `I`; what it
answers has `Q`. -/
def Keeps {α : Type} (I : Canvas → Prop) (x : Painting α) (Q : α → Prop) : Prop :=
  ∀ k, I k → wp x (fun a k' => I k' ∧ Q a) (fun stop k' => stop ≠ .broken ∧ I k') k

namespace Keeps

variable {α β : Type} {I : Canvas → Prop} {x y : Painting α} {P Q : α → Prop}

protected theorem pure {a : α} (h : Q a) : Keeps I (pure a) Q := fun _ hk => ⟨hk, h⟩

protected theorem fail (code : Errc) (what : String) (offset : ℕ) : Keeps I (fail code what offset) Q :=
  fun _ hk => ⟨nofun, hk⟩

protected theorem bind {f : α → Painting β} {Q : β → Prop} (hx : Keeps I x P) (hf : ∀ a, P a → Keeps I (f a) Q) :
    Keeps I (x >>= f) Q := by
  intro k hk
  rw [wp_bind]
  exact wp_mono (hx k hk) (fun a k' h => hf a h.2 k' h.1) fun _ _ h => h

protected theorem mono (hx : Keeps I x P) (h : ∀ a, P a → Q a) : Keeps I x Q :=
  fun k hk => wp_mono (hx k hk) (fun a _ ha => ⟨ha.1, h a ha.2⟩) fun _ _ h => h

protected theorem ite {c : Prop} [Decidable c] (hx : c → Keeps I x Q) (hy : ¬c → Keeps I y Q) :
    Keeps I (if c then x else y) Q := by
  split_ifs with hc
  · exact hx hc
  · exact hy hc

protected theorem parse {p : Parse α} {r : Reader} {Q : α × Reader → Prop}
    (h : ∀ a r', p r = .ok (a, r') → Q (a, r')) : Keeps I (parse p r) Q :=
  fun _ hk => wp_parse (fun a r' ha => ⟨hk, h a r' ha⟩) fun _ _ => ⟨nofun, hk⟩

/-- A step that takes some bytes. -/
protected theorem reads {p : Parse α} {n : ℕ} (hp : p.Consumes n) (r : Reader) :
    Keeps I (parse p r) fun a => a.2.rest.length + n ≤ r.rest.length :=
  Keeps.parse fun a r' h => hp r a r' h

protected theorem rule {c : Prop} [Decidable c] (h : c) : Keeps I (rule c) fun _ => True :=
  fun _ hk => wp_rule (fun _ => ⟨hk, trivial⟩) fun hn => absurd h hn

protected theorem access {l : List α} {i : ℕ} (h : i < l.length) : Keeps I (access l i) fun a => l[i]? = some a := by
  intro k hk
  refine wp_access (fun a ha => ⟨hk, ha⟩) fun hn => ?_
  rw [getElem?_eq_getElem h] at hn
  cases hn

protected theorem decoder {Q : Decoder → Prop} (h : ∀ k, I k → Q k.decoder) : Keeps I decoder Q :=
  fun k hk => ⟨hk, h k hk⟩

protected theorem onDecoder {f : Decoder → Decoder} (h : ∀ k, I k → I { k with decoder := f k.decoder }) :
    Keeps I (onDecoder f) fun _ => True :=
  fun k hk => ⟨h k hk, trivial⟩

end Keeps

/-! ### Pixels -/

/-- An invariant that pixels of the rectangle do not disturb. -/
structure Pixels (t : Target) (I : Canvas → Prop) : Prop where
  fits : ∀ {k x y}, I k → x < t.width → y < t.height → t.offset x y + bytesPerPixel ≤ k.out.length
  put : ∀ {k x y} (c : Color), I k → x < t.width → y < t.height → I { k with out := t.put k.out x y c }

section

variable {t : Target} {out : List UInt8} {I : Canvas → Prop}

theorem inside_pixels (hv : t.Valid out) : Pixels t (Inside t out) where
  fits h hx hy := by
    rw [h.within.length]
    exact Target.offset_lt hv hx hy
  put c h hx hy := ⟨h.storages, h.within.put hv hx hy c⟩

theorem inBands_pixels (hv : t.Valid out) : Pixels t (InBands t out) where
  fits h hx hy := (inside_pixels hv).fits h.toInside hx hy
  put c h hx hy := ⟨(inside_pixels hv).put c h.toInside hx hy, h.vbars, h.shortVbars⟩

theorem put_keeps (hI : Pixels t I) {x y : ℕ} (hx : x < t.width) (hy : y < t.height) (c : Color) :
    Keeps I (put t x y c) fun _ => True :=
  fun _ hk => wp_put (fun _ => ⟨hI.put c hk hx hy, trivial⟩) fun hn => absurd (hI.fits hk hx hy) hn

theorem get_keeps (hI : Pixels t I) {x y : ℕ} (hx : x < t.width) (hy : y < t.height) :
    Keeps I (get t x y) fun _ => True := by
  intro k hk
  unfold get
  rw [wp_bind, wp_act, wp_bind]
  exact wp_rule (fun _ => ⟨hk, trivial⟩) fun hn => absurd (hI.fits hk hx hy) hn

variable {x0 y0 width height : ℕ}

/-- A run of pixels inside its sub-rectangle. -/
theorem fill_keeps (hI : Pixels t I) (hx : x0 + width ≤ t.width) (hy : y0 + height ≤ t.height) (c : Color) :
    ∀ (count : ℕ) {cursor : RasterCursor} {i : ℕ}, cursor.At x0 y0 width i → i + count ≤ width * height →
    Keeps I (fill t cursor c count) fun cursor' => cursor'.At x0 y0 width (i + count)
  | 0, _, _, hat, _ => Keeps.pure hat
  | count + 1, cursor, i, hat, hle => by
    have hw : 0 < width := pos_of_ne_zero fun h => by
      rw [h, Nat.zero_mul] at hle
      omega
    have hmod := Nat.mod_lt i hw
    have hdiv : i / width < height := Nat.div_lt_of_lt_mul (by omega)
    have hput := put_keeps hI (x := cursor.x0 + cursor.x) (y := cursor.y0 + cursor.y)
      (by rw [hat.left, hat.x]; omega) (by rw [hat.top, hat.y]; omega) c
    refine hput.bind fun _ _ => ?_
    have hnext := fill_keeps hI hx hy c count (hat.advance hw) (by omega)
    rwa [add_assoc, add_comm 1 count] at hnext

theorem fillEach_keeps (hI : Pixels t I) (hx : x0 + width ≤ t.width) (hy : y0 + height ≤ t.height) (l : List Color) :
    ∀ (is : List ℕ) {cursor : RasterCursor} {i : ℕ}, (∀ j ∈ is, j < l.length) → cursor.At x0 y0 width i →
    i + is.length ≤ width * height →
    Keeps I (fillEach t l cursor is) fun cursor' => cursor'.At x0 y0 width (i + is.length)
  | [], _, _, _, hat, _ => Keeps.pure hat
  | j :: is, cursor, i, hall, hat, hle => by
    rw [length_cons] at hle
    refine (Keeps.access (hall j mem_cons_self)).bind fun c _ => ?_
    refine (fill_keeps hI hx hy c 1 hat (by omega)).bind fun cursor' hat' => ?_
    have hnext := fillEach_keeps hI hx hy l is (fun j' hj => hall j' (mem_cons_of_mem j hj)) hat' (by omega)
    rwa [add_assoc, add_comm 1 is.length, ← length_cons (a := j)] at hnext

/-! ### The residual layer -/

theorem readBgr_consumes : readBgr.Consumes 3 := readLe_consumes 3

theorem readRunLength_consumes : readRunLength.Consumes 1 := by
  unfold readRunLength
  refine (Parse.Consumes.bind (k := 0) (readLe_consumes 1) fun factor1 => ?_).le le_rfl
  refine (Parse.Consumes.pure factor1).ite ?_
  refine (Parse.Consumes.bind (k := 0) (readLe_consumes 2) fun factor2 => ?_).le (Nat.zero_le _)
  exact (Parse.Consumes.pure factor2).ite ((readLe_consumes 4).le (Nat.zero_le _))

theorem decodeResidualRuns_keeps (hI : Pixels t I) : ∀ (fuel : ℕ) (r : Reader) (painted : ℕ) (cursor : RasterCursor),
    r.rest.length < fuel → painted ≤ t.pixels → cursor.At 0 0 t.width painted →
    Keeps I (decodeResidualRuns t fuel r painted cursor) fun _ => True
  | 0, _, _, _, hfuel, _, _ => absurd hfuel (Nat.not_lt_zero _)
  | fuel + 1, r, painted, cursor, hfuel, hpainted, hat => by
    rw [decodeResidualRuns]
    refine Keeps.ite (fun _ => Keeps.ite (fun _ => Keeps.fail _ _ _) fun _ => Keeps.pure trivial) fun _ => ?_
    refine (Keeps.reads readBgr_consumes r).bind ?_
    rintro ⟨c, r₁⟩ hc
    refine (Keeps.reads readRunLength_consumes r₁).bind ?_
    rintro ⟨run, r₂⟩ hrun
    refine Keeps.ite (fun _ => Keeps.fail _ _ _) fun _ => Keeps.ite (fun _ => Keeps.fail _ _ _) fun hover => ?_
    have hle : painted + run ≤ t.width * t.height := by
      change ¬ run > t.width * t.height - painted at hover
      change painted ≤ t.width * t.height at hpainted
      omega
    refine (fill_keeps hI (by omega) (by omega) c run hat hle).bind fun cursor' hat' => ?_
    exact decodeResidualRuns_keeps hI fuel r₂ _ cursor' (by dsimp only at hc hrun; omega) hle hat'

theorem decodeResidual_keeps (hI : Pixels t I) (r : Reader) : Keeps I (decodeResidual r t) fun _ => True :=
  decodeResidualRuns_keeps hI _ r 0 _ (Nat.lt_succ_self _) (Nat.zero_le _) (RasterCursor.At.start 0 0 t.width)

/-! ### The bands layer -/

theorem setShortVbar_keeps {slot size : ℕ} {f : Entry → Entry}
    (hf : ∀ entry : Entry, entry.pixels.length = size → (f entry).pixels.length = size) :
    Keeps (InVbar t out slot size) (setShortVbar slot f) fun _ => True := by
  intro k hk
  obtain ⟨entry, hentry, hsize⟩ := hk.entry
  refine wp_setShortVbar hentry ⟨⟨hk.toInBands.withShort slot _, _, getElem?_withShort hentry _, hf entry hsize⟩, trivial⟩

theorem readShortVbar_keeps {slot size : ℕ} : ∀ (count i : ℕ) (r : Reader),
    Keeps (InVbar t out slot size) (readShortVbar slot i count r) fun r' => r'.rest.length ≤ r.rest.length
  | 0, _, _ => Keeps.pure le_rfl
  | count + 1, i, r => by
    rw [readShortVbar]
    refine (Keeps.reads readBgr_consumes r).bind ?_
    rintro ⟨c, r₁⟩ hc
    refine (setShortVbar_keeps fun entry hsize => ?_).bind fun _ _ => ?_
    · dsimp only
      rw [length_set, hsize]
    · exact (readShortVbar_keeps count (i + 1) r₁).mono fun r' h => by
        dsimp only at hc
        omega

theorem decodeShortVbar_keeps (r : Reader) (headerAt header height : ℕ) :
    Keeps (InBands t out) (decodeShortVbar r headerAt header height) fun a =>
      a.1 + a.2.1.length ≤ height ∧ a.2.2.rest.length ≤ r.rest.length := by
  unfold decodeShortVbar
  refine Keeps.ite (fun _ => ?_) fun _ => Keeps.ite (fun _ => Keeps.fail _ _ _) fun hfit => ?_
  · -- from its storage
    refine (Keeps.reads (readLe_consumes 1) r).bind ?_
    rintro ⟨yOn, r'⟩ hr
    refine (Keeps.decoder (Q := fun s => s.shortVbars.length = shortVbarCacheSize) fun k hk => hk.shortVbars).bind
      fun s hs => ?_
    have hlt : header &&& 0x3FFF < s.shortVbars.length := by
      rw [hs]
      exact lt_of_le_of_lt Nat.and_le_right (by decide)
    refine (Keeps.access hlt).bind fun entry _ => ?_
    refine Keeps.ite (fun _ => Keeps.fail _ _ _) fun _ => Keeps.ite (fun _ => Keeps.fail _ _ _) fun hfits => ?_
    exact Keeps.pure ⟨by dsimp only; omega, by dsimp only at hr ⊢; omega⟩
  · -- from the stream
    intro k hk
    have hslot := hk.shortVbars ▸ hk.storages.shortVbarCursor
    obtain ⟨entry, hentry⟩ : ∃ entry, k.decoder.shortVbars[k.decoder.shortVbarCursor]? = some entry :=
      ⟨_, getElem?_eq_getElem hslot⟩
    have hsize : (header &&& 0xFF) + ((header >>> 8 &&& 0x3F) - (header &&& 0xFF)) ≤ height := by omega
    generalize (header >>> 8 &&& 0x3F) - (header &&& 0xFF) = size at *
    rw [wp_bind, decoder, wp_act, wp_bind, wp_act, wp_bind]
    refine wp_access (fun _ _ => ?_) fun hn => by cases hn.symm.trans hentry
    rw [wp_bind]
    refine wp_setShortVbar hentry ?_
    have hin : InVbar t out k.decoder.shortVbarCursor size
        (k.withShort k.decoder.shortVbarCursor (Entry.resized entry size)) := by
      refine ⟨hk.withShort _ _, _, getElem?_withShort hentry _, ?_⟩
      simp only [Entry.resized, length_append, length_take, length_replicate]
      omega
    have hrest : Keeps (InVbar t out k.decoder.shortVbarCursor size) (do
        let r' ← readShortVbar k.decoder.shortVbarCursor 0 size r
        setShortVbar k.decoder.shortVbarCursor fun entry => { entry with used := true }
        onDecoder fun s => { s with shortVbarCursor := (s.shortVbarCursor + 1) % shortVbarCacheSize }
        let entry ← access (← decoder).shortVbars k.decoder.shortVbarCursor
        pure (header &&& 0xFF, entry.pixels, r'))
        fun a => a.1 + a.2.1.length ≤ height ∧ a.2.2.rest.length ≤ r.rest.length := by
      refine (readShortVbar_keeps size 0 r).bind fun r' hr => ?_
      refine (setShortVbar_keeps (f := fun entry => { entry with used := true }) fun entry hsize => hsize).bind
        fun _ _ => ?_
      refine (Keeps.onDecoder fun k₁ hk₁ => ?_).bind fun _ _ => ?_
      · exact ⟨⟨⟨⟨hk₁.storages.vbars, hk₁.storages.shortVbars, hk₁.storages.glyphs, hk₁.storages.together,
          hk₁.storages.vbarCursor, Nat.mod_lt _ (by decide)⟩, hk₁.within⟩, hk₁.vbars, hk₁.shortVbars⟩, hk₁.entry⟩
      refine (Keeps.decoder (Q := fun s => ∃ entry, s.shortVbars[k.decoder.shortVbarCursor]? = some entry ∧
        entry.pixels.length = size) fun k₁ hk₁ => hk₁.entry).bind ?_
      rintro s ⟨entry, hentry, hlen⟩
      refine (Keeps.access (List.getElem?_eq_some_iff.mp hentry).1).bind fun entry' hentry' => ?_
      obtain rfl := Option.some.inj (hentry'.symm.trans hentry)
      exact Keeps.pure ⟨by dsimp only; omega, hr⟩
    exact wp_mono (hrest _ hin) (fun _ _ h => ⟨h.1.toInBands, h.2⟩) fun _ _ h => ⟨h.1, h.2.toInBands⟩

theorem decodeVbar_keeps (r : Reader) (height : ℕ) (background : Color) :
    Keeps (InBands t out) (decodeVbar r height background) fun a =>
      a.1.length = height ∧ a.2.rest.length ≤ r.rest.length := by
  unfold decodeVbar
  refine (Keeps.reads (readLe_consumes 2) r).bind fun ⟨header, r'⟩ hr => ?_
  dsimp only at hr ⊢
  refine Keeps.ite (fun _ => ?_) fun _ => ?_
  · refine (Keeps.decoder (Q := fun s => s.vbars.length = vbarCacheSize) fun k hk => hk.vbars).bind fun s hs => ?_
    have hlt : header &&& 0x7FFF < s.vbars.length := by
      rw [hs]
      exact lt_of_le_of_lt Nat.and_le_right (by decide)
    refine (Keeps.access hlt).bind fun entry _ => Keeps.ite (fun _ => Keeps.fail _ _ _) fun hfits => ?_
    exact Keeps.pure ⟨by_contra fun hne => hfits (.inr hne), by dsimp only; omega⟩
  · refine (decodeShortVbar_keeps r' r.offset header height).bind fun ⟨yOn, pixels, r''⟩ ⟨hfits, hr'⟩ => ?_
    refine (Keeps.rule hfits).bind fun _ _ => ?_
    have hcolumn : (Ring.overwrite (List.replicate height background) yOn pixels).length = height := by
      rw [Ring.overwrite_length (by rwa [length_replicate]), length_replicate]
    refine (Keeps.decoder (Q := fun s => s.vbarCursor < vbarCacheSize) fun k hk => hk.storages.vbarCursor).bind
      fun s hs => ?_
    refine (Keeps.decoder (Q := fun s => s.vbars.length = vbarCacheSize) fun k hk => hk.vbars).bind fun s' hs' => ?_
    refine (Keeps.access (by rw [hs']; exact hs)).bind fun _ _ => ?_
    refine (Keeps.onDecoder fun k hk => ?_).bind fun _ _ => Keeps.pure ⟨hcolumn, by dsimp only at hr' ⊢; omega⟩
    have hlen : (k.decoder.vbars.set s.vbarCursor
        ⟨Ring.overwrite (List.replicate height background) yOn pixels, true⟩).length = k.decoder.vbars.length :=
      length_set
    exact ⟨⟨⟨hk.storages.vbars.of_length hlen, hk.storages.shortVbars, hk.storages.glyphs, fun _ => hk.shortVbars,
      Nat.mod_lt _ (by decide), hk.storages.shortVbarCursor⟩, hk.within⟩, hlen.trans hk.vbars, hk.shortVbars⟩

theorem paintColumn_keeps (hI : Pixels t I) {x yStart : ℕ} {vbar : List Color} (hx : x < t.width)
    (hy : yStart + vbar.length ≤ t.height) : ∀ ys : List ℕ, (∀ y ∈ ys, y < vbar.length) →
    Keeps I (paintColumn t x yStart vbar ys) fun _ => True
  | [], _ => Keeps.pure trivial
  | y :: ys, hys => by
    have hlt := hys y mem_cons_self
    refine (Keeps.access hlt).bind fun c _ => ?_
    refine (put_keeps hI hx (by omega) c).bind fun _ _ => ?_
    exact paintColumn_keeps hI hx hy ys fun y' h => hys y' (mem_cons_of_mem y h)

theorem decodeVbars_keeps (hv : t.Valid out) {yStart height : ℕ} (background : Color) (hy : yStart + height ≤ t.height) :
    ∀ (xs : List ℕ) (r : Reader), (∀ x ∈ xs, x < t.width) →
    Keeps (InBands t out) (decodeVbars t yStart height background xs r) fun r' => r'.rest.length ≤ r.rest.length
  | [], _, _ => Keeps.pure le_rfl
  | x :: xs, r, hxs => by
    refine (decodeVbar_keeps r height background).bind fun ⟨vbar, r'⟩ ⟨hlen, hr⟩ => ?_
    dsimp only at hlen hr ⊢
    have hcolumn := @paintColumn_keeps t _ (inBands_pixels hv) x yStart vbar (hxs x mem_cons_self)
      (by omega) (List.range height) fun y hy => by rw [hlen]; exact mem_range.mp hy
    refine hcolumn.bind fun _ _ => ?_
    refine (decodeVbars_keeps hv background hy xs r' fun x' h => hxs x' (mem_cons_of_mem x h)).mono fun r'' h => ?_
    exact h.trans hr

theorem readBandHeader_consumes : readBandHeader.Consumes 1 := by
  unfold readBandHeader
  refine (Parse.Consumes.bind (k := 0) (readLe_consumes 2) fun _ => ?_).le (by omega)
  refine (Parse.Consumes.bind (k := 0) (readLe_consumes 2) fun _ => ?_).le (Nat.zero_le _)
  refine (Parse.Consumes.bind (k := 0) (readLe_consumes 2) fun _ => ?_).le (Nat.zero_le _)
  refine (Parse.Consumes.bind (k := 0) (readLe_consumes 2) fun _ => ?_).le (Nat.zero_le _)
  exact (readBgr_consumes.bind fun _ => Parse.Consumes.pure _).le (Nat.zero_le _)

theorem decodeBand_keeps (hv : t.Valid out) (r : Reader) :
    Keeps (InBands t out) (decodeBand r t) fun r' => r'.rest.length < r.rest.length := by
  unfold decodeBand
  refine (Keeps.reads readBandHeader_consumes r).bind fun ⟨⟨xStart, xEnd, yStart, yEnd, background⟩, r'⟩ hr => ?_
  dsimp only at hr ⊢
  refine Keeps.ite (fun _ => Keeps.fail _ _ _) fun horder => ?_
  refine Keeps.ite (fun _ => Keeps.fail _ _ _) fun hinside => ?_
  refine Keeps.ite (fun _ => Keeps.fail _ _ _) fun _ => ?_
  refine (decodeVbars_keeps hv background (by omega) _ r' fun x hx => ?_).mono fun r'' h => by omega
  have hmem := mem_range'_1.mp hx
  omega

theorem decodeBandsLoop_keeps (hv : t.Valid out) : ∀ (fuel : ℕ) (r : Reader), r.rest.length < fuel →
    Keeps (InBands t out) (decodeBandsLoop t fuel r) fun _ => True
  | 0, _, hfuel => absurd hfuel (Nat.not_lt_zero _)
  | fuel + 1, r, hfuel => by
    rw [decodeBandsLoop]
    refine Keeps.ite (fun _ => Keeps.pure trivial) fun _ => ?_
    exact (decodeBand_keeps hv r).bind fun r' hr => decodeBandsLoop_keeps hv fuel r' (by omega)

theorem decodeBands_keeps (hv : t.Valid out) (r : Reader) : Keeps (Inside t out) (decodeBands r t) fun _ => True := by
  intro k hk
  unfold decodeBands
  obtain ⟨hstorages, hvbars, hshort⟩ := hk.storages.allocateVbars
  refine wp_mono (decodeBandsLoop_keeps hv _ r (Nat.lt_succ_self _) _ ⟨⟨hstorages, hk.within⟩, hvbars, hshort⟩) ?_ ?_
  · exact fun _ _ h => ⟨h.1.toInside, trivial⟩
  · exact fun _ _ h => ⟨h.1, h.2.toInside⟩

/-! ### The subcodecs layer -/

theorem decodeRlexSegments_keeps (hI : Pixels t I) (hx : x0 + width ≤ t.width) (hy : y0 + height ≤ t.height)
    (palette : List Color) (indexBits : ℕ) : ∀ (fuel : ℕ) (r : Reader) (painted : ℕ) (cursor : RasterCursor),
    r.rest.length < fuel → painted ≤ width * height → cursor.At x0 y0 width painted →
    Keeps I (decodeRlexSegments t palette indexBits (width * height) fuel r painted cursor) fun _ => True
  | 0, _, _, _, hfuel, _, _ => absurd hfuel (Nat.not_lt_zero _)
  | fuel + 1, r, painted, cursor, hfuel, hpainted, hat => by
    rw [decodeRlexSegments]
    refine Keeps.ite (fun _ => Keeps.ite (fun _ => Keeps.fail _ _ _) fun _ => Keeps.pure trivial) fun _ => ?_
    refine (Keeps.reads (readLe_consumes 1) r).bind ?_
    rintro ⟨packed, r₁⟩ hpacked
    refine (Keeps.reads readRunLength_consumes r₁).bind ?_
    rintro ⟨run, r₂⟩ hrun
    dsimp only at hpacked hrun ⊢
    generalize packed &&& (2 ^ indexBits - 1) = stop
    generalize packed >>> indexBits = depth
    refine Keeps.ite (fun _ => Keeps.fail _ _ _) fun hsuite => Keeps.ite (fun _ => Keeps.fail _ _ _) fun hover => ?_
    refine (Keeps.access (show stop - depth < palette.length by omega)).bind fun c _ => ?_
    refine (fill_keeps hI hx hy c run hat (by omega)).bind fun cursor₁ hat₁ => ?_
    have hsuite' : ∀ j ∈ List.range' (stop - depth) (depth + 1), j < palette.length := by
      intro j hj
      have hmem := mem_range'_1.mp hj
      omega
    have hlen : (List.range' (stop - depth) (depth + 1)).length = depth + 1 := length_range'
    refine (fillEach_keeps hI hx hy palette _ hsuite' hat₁ (by rw [hlen]; omega)).bind fun cursor₂ hat₂ => ?_
    rw [hlen, Nat.add_assoc] at hat₂
    exact decodeRlexSegments_keeps hI hx hy palette indexBits fuel r₂ _ cursor₂ (by omega) (by omega) hat₂

theorem decodeRlex_keeps (hI : Pixels t I) (hx : x0 + width ≤ t.width) (hy : y0 + height ≤ t.height) (r : Reader) :
    Keeps I (decodeRlex r t x0 y0 width height) fun _ => True := by
  unfold decodeRlex
  refine (Keeps.reads (readLe_consumes 1) r).bind fun ⟨paletteCount, r₁⟩ _ => ?_
  refine Keeps.ite (fun _ => Keeps.fail _ _ _) fun _ => ?_
  refine (Keeps.reads (readMany_consumes readBgr_consumes paletteCount) r₁).bind fun ⟨palette, r₂⟩ _ => ?_
  exact decodeRlexSegments_keeps hI hx hy palette _ _ r₂ 0 _ (Nat.lt_succ_self _) (Nat.zero_le _)
    (RasterCursor.At.start x0 y0 width)

theorem decodeUncompressed_keeps (hI : Pixels t I) (hx : x0 + width ≤ t.width) (hy : y0 + height ≤ t.height) :
    ∀ (count : ℕ) {cursor : RasterCursor} {i : ℕ} (r : Reader), cursor.At x0 y0 width i → i + count ≤ width * height →
    Keeps I (decodeUncompressed t cursor count r) fun _ => True
  | 0, _, _, _, _, _ => Keeps.pure trivial
  | count + 1, cursor, i, r, hat, hle => by
    rw [decodeUncompressed]
    refine (Keeps.reads readBgr_consumes r).bind ?_
    rintro ⟨c, r₁⟩ _
    refine (fill_keeps hI hx hy c 1 hat (by omega)).bind fun cursor' hat' => ?_
    exact decodeUncompressed_keeps hI hx hy count r₁ hat' (by omega)

theorem readSubcodecHeader_consumes : readSubcodecHeader.Consumes 1 := by
  unfold readSubcodecHeader
  refine (Parse.Consumes.bind (k := 0) (readLe_consumes 2) fun _ => ?_).le (by omega)
  refine (Parse.Consumes.bind (k := 0) (readLe_consumes 2) fun _ => ?_).le (Nat.zero_le _)
  refine (Parse.Consumes.bind (k := 0) (readLe_consumes 2) fun _ => ?_).le (Nat.zero_le _)
  refine (Parse.Consumes.bind (k := 0) (readLe_consumes 2) fun _ => ?_).le (Nat.zero_le _)
  refine (Parse.Consumes.bind (k := 0) (readLe_consumes 4) fun _ => ?_).le (Nat.zero_le _)
  exact ((readLe_consumes 1).bind fun _ => Parse.Consumes.pure _).le (Nat.zero_le _)

theorem decodeSubcodec_keeps (hI : Pixels t I) (r : Reader) :
    Keeps I (decodeSubcodec r t) fun r' => r'.rest.length < r.rest.length := by
  unfold decodeSubcodec
  refine (Keeps.reads readSubcodecHeader_consumes r).bind
    fun ⟨⟨xStart, yStart, width, height, byteCount, id⟩, r₁⟩ hr => ?_
  dsimp only at hr ⊢
  refine Keeps.ite (fun _ => Keeps.fail _ _ _) fun hinside => Keeps.ite (fun _ => Keeps.fail _ _ _) fun _ => ?_
  have hx : xStart + width ≤ t.width := by omega
  have hy : yStart + height ≤ t.height := by omega
  refine (Keeps.reads (sub_consumes byteCount) r₁).bind fun ⟨data, r₂⟩ hr₂ => ?_
  dsimp only at hr₂ ⊢
  have hless : r₂.rest.length < r.rest.length := by omega
  refine Keeps.ite (fun _ => ?_) fun _ => Keeps.ite (fun _ => Keeps.fail _ _ _) fun _ => ?_
  · refine Keeps.ite (fun _ => Keeps.fail _ _ _) fun _ => ?_
    have hpixels := decodeUncompressed_keeps hI hx hy (width * height) data (RasterCursor.At.start xStart yStart width)
      (by omega)
    exact hpixels.bind fun _ _ => Keeps.pure hless
  · refine Keeps.ite (fun _ => ?_) fun _ => Keeps.fail _ _ _
    exact (decodeRlex_keeps hI hx hy data).bind fun _ _ => Keeps.pure hless

theorem decodeSubcodecs_keeps (hI : Pixels t I) : ∀ (fuel : ℕ) (r : Reader), r.rest.length < fuel →
    Keeps I (decodeSubcodecs t fuel r) fun _ => True
  | 0, _, hfuel => absurd hfuel (Nat.not_lt_zero _)
  | fuel + 1, r, hfuel => by
    rw [decodeSubcodecs]
    refine Keeps.ite (fun _ => Keeps.pure trivial) fun _ => ?_
    exact (decodeSubcodec_keeps hI r).bind fun r' hr => decodeSubcodecs_keeps hI fuel r' (by omega)

/-! ### Streams -/

theorem decodeComposite_keeps (hv : t.Valid out) (r : Reader) :
    Keeps (Inside t out) (decodeComposite r t) fun _ => True := by
  unfold decodeComposite
  refine (Keeps.parse (Q := fun _ => True) fun _ _ _ => trivial).bind fun ⟨layers, r'⟩ _ => ?_
  have hrest : Keeps (Inside t out) (do
      decodeBands layers.bands t
      decodeSubcodecs t (layers.subcodecs.remaining + 1) layers.subcodecs) fun _ => True := by
    refine (decodeBands_keeps hv layers.bands).bind fun _ _ => ?_
    exact decodeSubcodecs_keeps (inside_pixels hv) _ layers.subcodecs (Nat.lt_succ_self _)
  refine Keeps.ite (fun _ => ?_) fun _ => hrest
  exact (decodeResidual_keeps (inside_pixels hv) layers.residual).bind fun _ _ => hrest

theorem readPixels_keeps (hI : Pixels t I) : ∀ is : List ℕ, (∀ i ∈ is, i < t.pixels) →
    Keeps I (readPixels t is) fun _ => True
  | [], _ => Keeps.pure trivial
  | i :: is, his => by
    have hi : i < t.width * t.height := his i mem_cons_self
    have hw : 0 < t.width := pos_of_ne_zero fun h => by
      rw [h, Nat.zero_mul] at hi
      omega
    refine (get_keeps hI (Nat.mod_lt i hw) (Nat.div_lt_of_lt_mul hi)).bind fun _ _ => ?_
    refine (readPixels_keeps hI is fun j hj => his j (mem_cons_of_mem i hj)).bind fun _ _ => ?_
    exact Keeps.pure trivial

theorem decodeGlyph_keeps (hv : t.Valid out) (r : Reader) (hit : Bool) :
    Keeps (Inside t out) (decodeGlyph r t hit) fun _ => True := by
  unfold decodeGlyph
  refine Keeps.ite (fun _ => Keeps.fail _ _ _) fun _ => ?_
  refine (Keeps.parse (Q := fun _ => True) fun _ _ _ => trivial).bind fun ⟨index, r'⟩ _ => ?_
  refine Keeps.ite (fun _ => Keeps.fail _ _ _) fun hindex => ?_
  intro k hk
  obtain ⟨hstorages, hglyphs⟩ := hk.storages.allocateGlyphs
  have hlt : index < k.decoder.allocateGlyphs.glyphs.length := by omega
  rw [wp_bind, onDecoder, wp_update, wp_bind, decoder, wp_act, wp_bind]
  refine wp_access (fun glyph _ => ?_) fun hn => ?_
  · refine Keeps.ite (I := Inside t out) (Q := fun _ => True) (fun _ => ?_) (fun _ => ?_) _ ⟨hstorages, hk.within⟩
    · -- replayed
      refine Keeps.ite (fun _ => Keeps.fail _ _ _) fun hfits => ?_
      have hsize : t.pixels ≤ glyph.pixels.length := by omega
      have hfill := (@fillEach_keeps t _ 0 0 t.width t.height (inside_pixels hv) (by omega) (by omega) glyph.pixels
        (List.range t.pixels))
        (fun i hi => (mem_range.mp hi).trans_le hsize) (RasterCursor.At.start 0 0 t.width)
        (by rw [length_range, zero_add]; exact le_rfl)
      refine hfill.bind fun _ _ => ?_
      exact (Keeps.parse (Q := fun _ => True) fun _ _ _ => trivial).bind fun _ _ => Keeps.pure trivial
    · -- stored once the layers are painted
      refine (decodeComposite_keeps hv r').bind fun _ _ => ?_
      refine (readPixels_keeps (inside_pixels hv) _ fun i hi => mem_range.mp hi).bind fun pixels _ => ?_
      refine Keeps.onDecoder fun k₁ hk₁ => ⟨⟨hk₁.storages.vbars, hk₁.storages.shortVbars, ?_, hk₁.storages.together,
        hk₁.storages.vbarCursor, hk₁.storages.shortVbarCursor⟩, hk₁.within⟩
      exact hk₁.storages.glyphs.of_length length_set
  · rw [getElem?_eq_getElem hlt] at hn
    cases hn

theorem readStreamHeader_keeps (r : Reader) : Keeps (Inside t out) (readStreamHeader r) fun _ => True := by
  unfold readStreamHeader
  refine (Keeps.parse (Q := fun _ => True) fun _ _ _ => trivial).bind fun ⟨flags, r₁⟩ _ => ?_
  refine (Keeps.parse (Q := fun _ => True) fun _ _ _ => trivial).bind fun ⟨sequence, r₂⟩ _ => ?_
  refine Keeps.ite (fun _ => Keeps.fail _ _ _) fun _ => ?_
  refine (Keeps.decoder (Q := fun _ => True) fun _ _ => trivial).bind fun s _ => ?_
  refine Keeps.ite (fun _ => Keeps.fail _ _ _) fun _ => ?_
  refine (Keeps.onDecoder fun k hk => ⟨⟨hk.storages.vbars, hk.storages.shortVbars, hk.storages.glyphs,
    hk.storages.together, hk.storages.vbarCursor, hk.storages.shortVbarCursor⟩, hk.within⟩).bind fun _ _ => ?_
  have hlast : Keeps (Inside t out) (if flags &&& flagGlyphHit ≠ 0 ∧ flags &&& flagGlyphIndex = 0 then
        fail .invalidValue "ClearCodec CLEARCODEC_FLAG_GLYPH_HIT without GLYPH_INDEX" 0
      else pure (flags, r₂)) fun _ => True :=
    Keeps.ite (fun _ => Keeps.fail _ _ _) fun _ => Keeps.pure trivial
  refine Keeps.ite (fun _ => ?_) fun _ => hlast
  refine (Keeps.onDecoder fun k hk => ?_).bind fun _ _ => hlast
  exact ⟨⟨hk.storages.vbars, hk.storages.shortVbars, hk.storages.glyphs, hk.storages.together,
    (by decide : 0 < vbarCacheSize), (by decide : 0 < shortVbarCacheSize)⟩, hk.within⟩

end

/-- One call from sound storages. An assertion fails where the bytes cannot
hold the rectangle. -/
theorem decode_keeps (stream : List UInt8) (width height stride : ℕ) (k : Canvas) (hk : Storages k.decoder) :
    wp (decode stream width height stride) (fun _ k' => Inside ⟨stride, width, height⟩ k.out k')
      (fun stop k' => (Target.Valid ⟨stride, width, height⟩ k.out → stop ≠ .broken) ∧
        Inside ⟨stride, width, height⟩ k.out k') k := by
  have hin : Inside ⟨stride, width, height⟩ k.out k := ⟨hk, Target.Within.refl _ _⟩
  unfold decode
  split_ifs
  · exact ⟨fun _ h => (by cases h), hin⟩
  · exact ⟨fun _ h => (by cases h), hin⟩
  rw [wp_bind, wp_act, wp_bind]
  refine wp_rule (fun hv => ?_) fun hn => ⟨fun hv => absurd hv hn, hin⟩
  refine wp_mono ((readStreamHeader_keeps ⟨stream, 0⟩).bind (Q := fun _ => True) ?_ k hin) (fun _ _ h => h.1)
    fun _ _ h => ⟨fun _ => h.1, h.2⟩
  rintro ⟨flags, r⟩ _
  exact Keeps.ite (fun _ => decodeGlyph_keeps hv r _) fun _ => decodeComposite_keeps hv r

end Painting

/-! ### Runs -/

/-- A decoder after any calls, refused ones too. A call that breaks off ends
the program. -/
inductive Decoder.Reachable : Decoder → Prop where
  | new : Reachable {}
  | decode {s : Decoder} {stream out : List UInt8} {width height stride : ℕ} : Reachable s →
    (s.paint stream width height out stride).1 ≠ .error .broken →
    Reachable (s.paint stream width height out stride).2.decoder
  | reset {s : Decoder} : Reachable s → Reachable {}

theorem Storages.paint (hs : Storages s) (stream : List UInt8) (width height : ℕ) (out : List UInt8) (stride : ℕ) :
    (Target.Valid ⟨stride, width, height⟩ out → (s.paint stream width height out stride).1 ≠ .error .broken) ∧
      Inside ⟨stride, width, height⟩ out (s.paint stream width height out stride).2 := by
  have hcall := Painting.decode_keeps stream width height stride ⟨s, out⟩ hs
  unfold Handler.wp at hcall
  unfold Decoder.paint
  rcases hexec : Handler.exec (Painting.decode stream width height stride) ⟨s, out⟩ with ⟨_ | _, k⟩
  · rw [hexec] at hcall
    refine ⟨fun hv heq => hcall.1 hv ?_, hcall.2⟩
    cases heq
    rfl
  · rw [hexec] at hcall
    exact ⟨fun _ => nofun, hcall⟩

theorem Decoder.Reachable.storages (h : s.Reachable) : Storages s := by
  induction h with
  | new | reset _ _ => exact Storages.new
  | decode _ _ ih => exact (ih.paint _ _ _ _ _).2.storages

/-- **Decoding stays inside its rectangle.** A call of a reachable decoder
makes no access out of range, changes nothing outside the rectangle, and leaves
every storage unallocated or in full size, whether it succeeds or fails. -/
theorem Decoder.paint_contained {s : Decoder} (hs : s.Reachable) (stream : List UInt8) (width height : ℕ)
    (out : List UInt8) (stride : ℕ) (hv : Target.Valid ⟨stride, width, height⟩ out) :
    (s.paint stream width height out stride).1 ≠ .error .broken ∧
      Target.Within ⟨stride, width, height⟩ out (s.paint stream width height out stride).2.out ∧
      Storages (s.paint stream width height out stride).2.decoder := by
  obtain ⟨hsound, hinside⟩ := hs.storages.paint stream width height out stride
  exact ⟨hsound hv, hinside.within, hinside.storages⟩

/-- After a stream out of sequence, one with a single pixel in a wider row. -/
theorem Decoder.paint_contained_pixel :
    let s := (({} : Decoder).paint [0, 7] 1 1 [0, 0, 0, 0] 4).2.decoder
    let stream := [0, 0, 4, 0, 0, 0, 0, 0, 0, 0, 0, 0, 0, 0, 1, 2, 3, 1]
    (s.paint stream 1 1 [9, 9, 9, 9, 9, 9] 6).1 ≠ .error .broken ∧
      Target.Within ⟨6, 1, 1⟩ [9, 9, 9, 9, 9, 9] (s.paint stream 1 1 [9, 9, 9, 9, 9, 9] 6).2.out ∧
      Storages (s.paint stream 1 1 [9, 9, 9, 9, 9, 9] 6).2.decoder :=
  Decoder.paint_contained (.decode .new (by decide)) _ 1 1 [9, 9, 9, 9, 9, 9] 6 (by decide)

end Clear
end Codec
end Farland
