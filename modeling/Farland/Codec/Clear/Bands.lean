/-
# The bands layer reads back

The client's V-bar storages and the encoder's mirrors of them: `Mirrors` says
that both write at the same cursor and that a slot the encoder would name
holds what the client has there. Writing a column and decoding it keeps that
and gives the column, whichever of the three forms it takes, so a band shows
every pixel of its area.

Key theorems: `decodeVbar_writeColumn`, `decodeBandsLoop_write`.
-/
import Farland.Codec.Clear.Layers

namespace Farland
namespace Codec
namespace Clear

open LittleEndian Reader List Option Nat

/-! ### Columns -/

/-- A list that is one value outside `[on, off)`, from what it has inside. -/
theorem overwrite_trimmed (l : List Color) (background : Color) {on off : ℕ} (h1 : on ≤ off) (h2 : off ≤ l.length)
    (hon : ∀ i < on, l[i]? = some background)
    (hoff : ∀ i, off ≤ i → i < l.length → l[i]? = some background) :
    Ring.overwrite (List.replicate l.length background) on ((l.drop on).take (off - on)) = l := by
  have hlen : ((l.drop on).take (off - on)).length = off - on := by
    rw [length_take, length_drop]
    omega
  refine ext_getElem? fun i => ?_
  rw [Ring.getElem?_overwrite (by rw [length_replicate]; omega), hlen]
  split_ifs with hi
  · rw [getElem?_take_of_lt (by omega), getElem?_drop, Nat.add_sub_cancel' hi.1]
  · rw [getElem?_replicate]
    by_cases hl : i < l.length
    · rw [if_pos hl]
      rcases Nat.lt_or_ge i on with h | h
      · exact (hon i h).symm
      · exact (hoff i (by omega) hl).symm
    · rw [if_neg hl, getElem?_eq_none (by omega)]

structure Column.Spec (column : Column) (image : Image) (x y0 y1 : ℕ) (background : Color) : Prop where
  pixels : column.pixels = (List.range' y0 (y1 - y0)).map fun y => image.at_ x y
  on_le : column.yOn ≤ column.yOff
  off_le : column.yOff ≤ y1 - y0
  rebuilds : Ring.overwrite (List.replicate (y1 - y0) background) column.yOn column.shortVbar = column.pixels

variable {background : Color} {x y0 y1 : ℕ} {t : Target} {column : Column} {image : Image}

/-- The short V-bar and the background around it are the column. -/
theorem loadColumn_spec (image : Image) (x y0 y1 : ℕ) (background : Color) :
    (loadColumn image x y0 y1 background).Spec image x y0 y1 background := by
  unfold loadColumn
  have hlen : ((List.range' y0 (y1 - y0)).map fun y => image.at_ x y).length = y1 - y0 := by simp
  generalize hl : ((List.range' y0 (y1 - y0)).map fun y => image.at_ x y) = l at hlen
  by_cases hall : l.findIdx (· ≠ background) = l.length
  · rw [if_pos hall]
    refine ⟨hl.symm, le_rfl, Nat.zero_le _, ?_⟩
    have hbg := overwrite_trimmed l background (le_refl 0) (Nat.zero_le _) nofun fun i _ hi => by
      have := not_of_lt_findIdx (hall ▸ hi)
      rw [getElem?_eq_getElem hi]
      simpa using this
    rw [hlen] at hbg
    exact hbg
  · rw [if_neg hall]
    have hfirst : l.findIdx (· ≠ background) < l.length := lt_of_le_of_ne findIdx_le_length hall
    have hon : ∀ i < l.findIdx (· ≠ background), l[i]? = some background := by
      intro i hi
      have := not_of_lt_findIdx hi
      rw [getElem?_eq_getElem (hi.trans hfirst)]
      simpa using this
    have hoff : ∀ i, l.length - l.reverse.findIdx (· ≠ background) ≤ i → i < l.length → l[i]? = some background := by
      intro i h1 h2
      have hj : l.length - 1 - i < l.reverse.findIdx (· ≠ background) := by omega
      have := not_of_lt_findIdx hj
      rw [getElem?_eq_getElem h2]
      simpa [show l.length - 1 - (l.length - 1 - i) = i by omega] using this
    -- the first pixel that differs lies before the end of the part that does
    have hlt : l.findIdx (· ≠ background) < l.length - l.reverse.findIdx (· ≠ background) := by
      by_contra hge
      have h1 := hoff _ (Nat.not_lt.mp hge) hfirst
      have h2 := findIdx_getElem (w := hfirst)
      rw [getElem?_eq_getElem hfirst, Option.some.injEq] at h1
      rw [h1] at h2
      simp at h2
    refine ⟨hl.symm, hlt.le, by dsimp only; omega, ?_⟩
    have := overwrite_trimmed l background hlt.le (sub_le _ _) hon hoff
    rw [hlen] at this ⊢
    exact this

theorem Column.Spec.length (h : column.Spec image x y0 y1 background) : column.pixels.length = y1 - y0 := by
  rw [h.pixels, length_map, length_range']

theorem Column.Spec.shortVbar_length
    (h : column.Spec image x y0 y1 background) : column.shortVbar.length = column.yOff - column.yOn := by
  have := h.off_le
  rw [Column.shortVbar, length_take, length_drop, h.length]
  omega

theorem Column.Spec.shortVbar_lt (h : column.Spec image x y0 y1 background) : ∀ c ∈ column.shortVbar, c < 2 ^ 24 := by
  intro c hc
  have hc' := mem_of_mem_drop (mem_of_mem_take hc)
  rw [h.pixels] at hc'
  obtain ⟨y, -, rfl⟩ := mem_map.mp hc'
  exact image.at_lt x y

/-! ### The V-bar headers -/

theorem and_shiftLeft_of_lt {s k : ℕ} (m : ℕ) (h : s < 2 ^ k) : s &&& m <<< k = 0 := by
  apply eq_of_testBit_eq
  intro i
  rw [testBit_and, zero_testBit, testBit_shiftLeft]
  by_cases hi : k ≤ i
  · rw [testBit_lt_two_pow (lt_of_lt_of_le h (Nat.pow_le_pow_right (by decide) hi)), Bool.false_and]
  · rw [decide_eq_false (by omega), Bool.false_and, Bool.and_false]

theorem vbarHit_fields {slot : ℕ} (h : slot < vbarCacheSize) :
    vbarCacheHit ||| slot < 65536 ∧ (vbarCacheHit ||| slot) &&& 0x8000 ≠ 0 ∧
      (vbarCacheHit ||| slot) &&& 0x7FFF = slot := by
  have h15 : slot < 2 ^ 15 := h
  refine ⟨or_lt_two_pow (n := 16) (by decide) (h15.trans (by decide)), ?_, ?_⟩
  · have h0 : slot &&& 0x8000 = 0 := and_shiftLeft_of_lt 1 h15
    rw [Nat.and_or_distrib_right, h0]
    decide
  · rw [Nat.and_or_distrib_right, show (0x7FFF : ℕ) = 2 ^ 15 - 1 from rfl, and_two_pow_sub_one_eq_mod slot,
      mod_eq_of_lt h15]
    exact zero_or slot

theorem shortVbarHit_fields {slot : ℕ} (h : slot < shortVbarCacheSize) :
    shortVbarCacheHit ||| slot < 65536 ∧ (shortVbarCacheHit ||| slot) &&& 0x8000 = 0 ∧
      (shortVbarCacheHit ||| slot) &&& 0xC000 = 0x4000 ∧ (shortVbarCacheHit ||| slot) &&& 0x3FFF = slot := by
  have h14 : slot < 2 ^ 14 := h
  refine ⟨or_lt_two_pow (n := 16) (by decide) (h14.trans (by decide)), ?_, ?_, ?_⟩
  · have h0 : slot &&& 0x8000 = 0 := and_shiftLeft_of_lt 2 h14
    rw [Nat.and_or_distrib_right, h0]
    rfl
  · have h0 : slot &&& 0xC000 = 0 := and_shiftLeft_of_lt 3 h14
    rw [Nat.and_or_distrib_right, h0]
    rfl
  · rw [Nat.and_or_distrib_right, show (0x3FFF : ℕ) = 2 ^ 14 - 1 from rfl, and_two_pow_sub_one_eq_mod slot,
      mod_eq_of_lt h14]
    exact zero_or slot

theorem shortVbarMiss_fields : ∀ off < 53, ∀ on < 53,
    off <<< 8 ||| on < 65536 ∧ (off <<< 8 ||| on) &&& 0x8000 = 0 ∧ (off <<< 8 ||| on) &&& 0xC000 ≠ 0x4000 ∧
      (off <<< 8 ||| on) &&& 0xFF = on ∧ (off <<< 8 ||| on) >>> 8 &&& 0x3F = off := by
  decide +kernel

/-! ### The mirrors -/

/-- The client's storage has what the encoder's mirror says it has. -/
structure Mirrors (cache : ColumnCache) (capacity : ℕ) (entries : List Entry) (cursor : ℕ) : Prop where
  capacity_eq : cache.capacity = capacity
  size : entries.length = capacity
  cursor_eq : cursor = cache.cursor
  cursor_lt : cursor < capacity
  slots : cache.slots = [] ∨ cache.slots.length = capacity
  same : ∀ (i : ℕ) (slot : Slot), cache.slots[i]? = some slot → slot.content ≠ [] →
    entries[i]? = some ⟨slot.content, true⟩

/-- A hit names a slot with that content. -/
theorem Mirrors.find {cache : ColumnCache} {capacity : ℕ} {entries : List Entry} {cursor : ℕ}
    (h : Mirrors cache capacity entries cursor) {content : List Color} {i : ℕ} (hne : content ≠ [])
    (hf : cache.find content = some i) : i < capacity ∧ entries[i]? = some ⟨content, true⟩ := by
  unfold ColumnCache.find at hf
  split at hf
  · cases hf
  · split_ifs at hf with hc
    cases hf
    have hget : ∃ slot, cache.slots[i]? = some slot ∧ slot.content = content := by
      rw [getD_eq_getElem?_getD] at hc
      cases hs : cache.slots[i]? with
      | none =>
        rw [hs] at hc
        exact absurd hc.symm hne
      | some slot =>
        rw [hs] at hc
        exact ⟨slot, rfl, hc⟩
    obtain ⟨slot, hs, rfl⟩ := hget
    have he := h.same i slot hs hne
    exact ⟨h.size ▸ (List.getElem?_eq_some_iff.mp he).1, he⟩

/-- Both sides store at the cursor. -/
theorem Mirrors.insert {cache : ColumnCache} {capacity : ℕ} {entries : List Entry} {cursor : ℕ}
    (h : Mirrors cache capacity entries cursor) (content : List Color) :
    Mirrors (cache.insert content) capacity (entries.set cursor ⟨content, true⟩) ((cursor + 1) % capacity) := by
  have hpos : 0 < capacity := lt_of_le_of_lt (Nat.zero_le _) h.cursor_lt
  unfold ColumnCache.insert
  generalize hslots : (if cache.slots = [] then List.replicate cache.capacity ({} : Slot) else cache.slots) = slots
  have hlen : slots.length = capacity := by
    rw [← hslots]
    split_ifs with hs
    · rw [length_replicate, h.capacity_eq]
    · exact h.slots.resolve_left hs
  have hsame : ∀ (i : ℕ) (slot : Slot), slots[i]? = some slot → slot.content ≠ [] →
    entries[i]? = some ⟨slot.content, true⟩ := by
    intro i slot hi hne
    rw [← hslots] at hi
    split_ifs at hi with hs
    · rw [getElem?_replicate] at hi
      split_ifs at hi
      cases hi
      exact absurd rfl hne
    · exact h.same i slot hi hne
  refine ⟨h.capacity_eq, by rw [length_set, h.size], ?_, mod_lt _ hpos, .inr ?_, ?_⟩
  · dsimp only
    rw [hlen, h.cursor_eq]
  · rw [length_set, hlen]
  · intro i slot hi hne
    by_cases hc : cursor = i
    · subst hc
      rw [← h.cursor_eq, getElem?_set_self (by rw [hlen]; exact h.cursor_lt)] at hi
      cases hi
      exact getElem?_set_self (by rw [h.size]; exact h.cursor_lt)
    · rw [← h.cursor_eq, getElem?_set_ne hc] at hi
      rw [getElem?_set_ne hc]
      exact hsame i slot hi hne

/-- Both storages of a decoder are mirrored. -/
structure Caches.Mirrored (caches : Caches) (s : Decoder) : Prop where
  vbars : Mirrors caches.vbars vbarCacheSize s.vbars s.vbarCursor
  shortVbars : Mirrors caches.shortVbars shortVbarCacheSize s.shortVbars s.shortVbarCursor

/-- What a band changes of a decoder. -/
def Decoder.SameContext (s s' : Decoder) : Prop := s'.sequence = s.sequence ∧ s'.glyphs = s.glyphs

/-! ### One V-bar -/

variable {caches : Caches}

/-- The whole V-bar goes to the V-bar storage once the short one is known. -/
theorem decodeVbar_short {s s' : Decoder} {r r' r'' : Reader} {header height yOn : ℕ} {short column : List Color}
    (hr : u16le r = .ok (header, r')) (h8 : header &&& 0x8000 = 0)
    (hshort : decodeShortVbar s r' r.offset header height = some (.ok (yOn, short, s',
      r''))) (hcol : Ring.overwrite (List.replicate height background) yOn short = column) (hm : caches.Mirrored s') :
    ∃ s'', decodeVbar s r height background = some (.ok (column, s'', r'')) ∧
      Caches.Mirrored { caches with vbars := caches.vbars.insert column } s'' ∧ s'.SameContext s'' := by
  have hin : s'.vbarCursor < s'.vbars.length := by
    rw [hm.vbars.size]
    exact hm.vbars.cursor_lt
  refine ⟨{ s' with
    vbars := s'.vbars.set s'.vbarCursor ⟨column, true⟩, vbarCursor := (s'.vbarCursor + 1) % vbarCacheSize }, ?_,
    ⟨hm.vbars.insert column, hm.shortVbars⟩, rfl, rfl⟩
  unfold decodeVbar
  rw [hr]
  dsimp only
  rw [if_neg (not_not_intro h8), hshort]
  dsimp only
  rw [hcol, getElem?_eq_getElem hin]

/-- **A V-bar decodes to its column**, and the storages stay mirrored. -/
theorem decodeVbar_writeColumn {s : Decoder} (hm : caches.Mirrored s) (hc : column.Spec image x y0 y1 background)
    (hpos : y0 < y1) (h52 : y1 - y0 ≤ maxBandHeight) (rest : List UInt8) (o : ℕ) :
    ∃ s' o', decodeVbar s ⟨(writeColumn caches column).1 ++ rest, o⟩ (y1 - y0) background =
        some (.ok (column.pixels, s', ⟨rest, o'⟩)) ∧
      (writeColumn caches column).2.Mirrored s' ∧ s.SameContext s' := by
  have hlen := hc.length
  have hne : column.pixels ≠ [] := by
    rw [← length_pos_iff]
    omega
  have hon := hc.on_le
  have hoff := hc.off_le
  have hslen := hc.shortVbar_length
  unfold maxBandHeight at h52
  unfold writeColumn
  cases hf : caches.vbars.find column.pixels with
  | some slot =>
    -- in the V-bar storage
    obtain ⟨hlt, hentry⟩ := hm.vbars.find hne hf
    obtain ⟨h16, h8, h7⟩ := vbarHit_fields hlt
    refine ⟨s, o + 2, ?_, hm, rfl, rfl⟩
    unfold decodeVbar
    rw [show u16le ⟨Writer.u16le _ ++ rest, o⟩ = _ from u16le_append _ rest o h16]
    dsimp only
    rw [if_pos h8, h7, hentry]
    dsimp only
    rw [if_neg (by simp [hlen])]
  | none =>
    dsimp only
    cases hs : (if column.shortVbar = [] then none else caches.shortVbars.find column.shortVbar) with
    | some slot =>
      -- only the short V-bar is known
      split_ifs at hs with hnil
      obtain ⟨hlt, hentry⟩ := hm.shortVbars.find hnil hs
      obtain ⟨h16, h8, hC, h3⟩ := shortVbarHit_fields hlt
      have hshort : decodeShortVbar s ⟨Writer.u8 column.yOn ++ rest, o + 2⟩ o (shortVbarCacheHit ||| slot) (y1 - y0) =
          some (.ok (column.yOn, column.shortVbar, s, ⟨rest, o + 2 + 1⟩)) := by
        unfold decodeShortVbar
        rw [if_pos hC, show u8 ⟨Writer.u8 _ ++ rest, o + 2⟩ = _ from u8_append _ rest (o + 2) (by omega)]
        rw [h3, hentry]
        dsimp only
        rw [if_neg (by decide), if_neg (by omega)]
      obtain ⟨s', hd, hm', hctx⟩ := decodeVbar_short (u16le_append _ _ o h16) h8 hshort hc.rebuilds hm
      exact ⟨s', _, hd, hm', hctx⟩
    | none =>
      -- the short V-bar is sent and stored
      obtain ⟨h16, h8, hC, hFF, h3F⟩ := shortVbarMiss_fields column.yOff (by omega) column.yOn (by omega)
      obtain ⟨o', ho'⟩ := readMany_flatMap column.shortVbar rest (o + 2) hc.shortVbar_lt
      have hin : s.shortVbarCursor < s.shortVbars.length := by
        rw [hm.shortVbars.size]
        exact hm.shortVbars.cursor_lt
      have hshort : decodeShortVbar s ⟨column.shortVbar.flatMap writeBgr ++ rest, o + 2⟩ o
          (column.yOff <<< 8 ||| column.yOn) (y1 - y0) =
          some (.ok (column.yOn, column.shortVbar, { s with
            shortVbars := s.shortVbars.set s.shortVbarCursor ⟨column.shortVbar, true⟩
            shortVbarCursor := (s.shortVbarCursor + 1) % shortVbarCacheSize }, ⟨rest, o'⟩)) := by
        unfold decodeShortVbar
        rw [if_neg hC]
        rw [hFF, h3F, if_neg (by omega), getElem?_eq_getElem hin]
        rw [← hslen, ho']
      have hmid : Caches.Mirrored { caches with shortVbars := caches.shortVbars.insert column.shortVbar } { s with
          shortVbars := s.shortVbars.set s.shortVbarCursor ⟨column.shortVbar, true⟩
          shortVbarCursor := (s.shortVbarCursor + 1) % shortVbarCacheSize } :=
        ⟨hm.vbars, hm.shortVbars.insert column.shortVbar⟩
      obtain ⟨s', hd, hm', hctx⟩ := decodeVbar_short (u16le_append _ _ o h16) h8 hshort hc.rebuilds hmid
      exact ⟨s', _, hd, hm', hctx⟩

/-! ### Bands -/

/-- A column shows its colours downwards and leaves every other pixel. -/
theorem paintColumn_shows (hx : x < t.width) : ∀ (cs : List Color) (y : ℕ) (out : List UInt8),
    t.Valid out → y + cs.length ≤ t.height →
    t.Valid (paintColumn t x y cs out) ∧ (∀ k c, cs[k]? = some c → t.Shows (paintColumn t x y cs out) x (y + k) c) ∧
      (∀ x' y' c, x' < t.width → ¬ (x' = x ∧ y ≤ y' ∧ y' < y + cs.length) → t.Shows out x' y' c →
        t.Shows (paintColumn t x y cs out) x' y' c)
  | [], y, out, hv, _ => by
    refine ⟨hv, fun k c h => ?_, fun _ _ _ _ _ h => h⟩
    rw [getElem?_nil] at h
    cases h
  | c :: cs, y, out, hv, hle => by
    rw [length_cons] at hle
    obtain ⟨h₁, h₂, h₃⟩ := paintColumn_shows hx cs (y + 1) (t.put out x y c)
      (Target.put_valid hv hx (by omega) c) (by omega)
    unfold paintColumn
    refine ⟨h₁, fun k d hk => ?_, fun x' y' d hx' hne hs => ?_⟩
    · cases k with
      | zero =>
        cases hk
        exact h₃ x y c hx (by omega) (Target.put_shows hv hx (by omega) c)
      | succ k =>
        rw [show y + (k + 1) = y + 1 + k by omega]
        exact h₂ k d hk
    · rw [length_cons] at hne
      refine h₃ x' y' d hx' (fun h => hne ⟨h.1, by omega, by omega⟩) ?_
      exact Target.put_shows_other hv hx (by omega) hx' (fun h => hne ⟨h.1, by omega, by omega⟩) c hs

theorem decodeVbars_write (image : Image) (background : Color) (hpos : y0 < y1)
    (hy : y1 ≤ t.height) (h52 : y1 - y0 ≤ maxBandHeight) (rest : List UInt8) : ∀ (xs : List ℕ) (caches : Caches)
    (s : Decoder) (o : ℕ) (out : List UInt8), (∀ x ∈ xs, x < t.width) → caches.Mirrored s → t.Valid out →
    ∃ s' o' out', decodeVbars t y0 (y1 - y0) background xs s
        ⟨(writeColumns image y0 y1 background xs caches).1 ++ rest, o⟩ out = some (.ok (s', ⟨rest, o'⟩, out')) ∧
      (writeColumns image y0 y1 background xs caches).2.Mirrored s' ∧ s.SameContext s' ∧ t.Valid out' ∧
      (∀ x y, x ∈ xs → y0 ≤ y → y < y1 → t.Shows out' x y (image.at_ x y)) ∧
      (∀ x y c, x < t.width → ¬ (x ∈ xs ∧ y0 ≤ y ∧ y < y1) → t.Shows out x y c → t.Shows out' x y c)
  | [], caches, s, o, out, _, hm, hv =>
    ⟨s, o, out, rfl, hm, ⟨rfl, rfl⟩, hv, fun _ _ h => absurd h not_mem_nil, fun _ _ _ _ _ h => h⟩
  | x :: xs, caches, s, o, out, hxs, hm, hv => by
    have hx := hxs x mem_cons_self
    have hspec := loadColumn_spec image x y0 y1 background
    have hlen := hspec.length
    unfold writeColumns
    dsimp only
    rw [append_assoc]
    obtain ⟨s₁, o₁, hd, hm₁, hctx₁⟩ := decodeVbar_writeColumn hm hspec hpos h52 ((writeColumns image y0 y1 background xs
        (writeColumn caches (loadColumn image x y0 y1 background)).2).1 ++ rest) o
    obtain ⟨hv₁, hs₁, hk₁⟩ := paintColumn_shows hx (loadColumn image x y0 y1 background).pixels y0 out hv (by omega)
    obtain ⟨s₂, o₂, out₂, hd₂, hm₂, hctx₂, hv₂, hs₂, hk₂⟩ := decodeVbars_write image background hpos hy h52 rest xs _
      s₁ o₁ _
      (fun z hz => hxs z (mem_cons_of_mem _ hz)) hm₁ hv₁
    refine ⟨s₂, o₂, out₂, ?_, hm₂, ⟨hctx₂.1.trans hctx₁.1, hctx₂.2.trans hctx₁.2⟩, hv₂, fun z y hz h1 h2 => ?_,
      fun z y c hz hne hs => ?_⟩
    · unfold decodeVbars
      rw [hd]
      exact hd₂
    · by_cases hz' : z ∈ xs
      · exact hs₂ z y hz' h1 h2
      · have hzx : z = x := (mem_cons.mp hz).resolve_right hz'
        subst hzx
        have hget : (loadColumn image z y0 y1 background).pixels[y - y0]? = some (image.at_ z y) := by
          rw [hspec.pixels, getElem?_map, getElem?_range' (by omega), map_some, Nat.one_mul, Nat.add_sub_cancel' h1]
        have := hs₁ _ _ hget
        rw [Nat.add_sub_cancel' h1] at this
        exact hk₂ z y _ hx (fun h => hz' h.1) this
    · refine hk₂ z y c hz (fun h => hne ⟨mem_cons_of_mem _ h.1, h.2⟩) (hk₁ z y c hz (fun h => hne ?_) hs)
      exact ⟨h.1 ▸ mem_cons_self, h.2.1, by omega⟩

/-- A band the encoder may write. -/
structure BandOk (t : Target) (background : Color) (band : Area) : Prop where
  inside : band.Inside t.width t.height
  height : band.height ≤ maxBandHeight
  color : background < 2 ^ 24

theorem readBandHeader_write {band : Area} (h : BandOk t background band)
    (hwidth : t.width ≤ maxDimension) (hheight : t.height ≤ maxDimension) (rest : List UInt8) (o : ℕ) :
    ∃ o', readBandHeader ⟨Writer.u16le band.x0 ++ Writer.u16le (band.x1 - 1) ++ Writer.u16le band.y0 ++
        Writer.u16le (band.y1 - 1) ++ writeBgr background ++ rest, o⟩ =
      .ok ((band.x0, band.x1 - 1, band.y0, band.y1 - 1, background), ⟨rest, o'⟩) := by
  obtain ⟨⟨h1, h2, h3, h4⟩, -, hc⟩ := h
  unfold maxDimension at hwidth hheight
  refine ⟨o + 2 + 2 + 2 + 2 + 3, ?_⟩
  unfold readBandHeader
  refine (Parse.bind_ok (u16le_append band.x0 _ o (by omega))).trans ?_
  refine (Parse.bind_ok (u16le_append (band.x1 - 1) _ _ (by omega))).trans ?_
  refine (Parse.bind_ok (u16le_append band.y0 _ _ (by omega))).trans ?_
  refine (Parse.bind_ok (u16le_append (band.y1 - 1) _ _ (by omega))).trans ?_
  exact (Parse.bind_ok (readBgr_append background _ _ hc)).trans rfl

/-- One band shows every pixel of its area. -/
theorem decodeBand_write (image : Image) {band : Area} {s : Decoder} {out : List UInt8} (h : BandOk t background band)
    (hwidth : t.width ≤ maxDimension) (hheight : t.height ≤ maxDimension) (hm : caches.Mirrored s) (hv : t.Valid out)
    (rest : List UInt8) (o : ℕ) :
    ∃ s' o' out', decodeBand s ⟨(writeBand image background band caches).1 ++ rest, o⟩ t out =
        some (.ok (s', ⟨rest, o'⟩, out')) ∧
      (writeBand image background band caches).2.Mirrored s' ∧ s.SameContext s' ∧
      Paints image t band out out' := by
  obtain ⟨h1, h2, h3, h4⟩ := h.inside
  have h52 := h.height
  have hxe : band.x1 - 1 - band.x0 + 1 = band.width := by unfold Area.width; omega
  have hye : band.y1 - 1 - band.y0 + 1 = band.y1 - band.y0 := by omega
  have hmem : ∀ x, x ∈ List.range' band.x0 band.width ↔ band.x0 ≤ x ∧ x < band.x1 := by
    intro x
    rw [mem_range'_1]
    unfold Area.width
    omega
  unfold writeBand
  rw [append_assoc]
  obtain ⟨o₁, ho₁⟩ := readBandHeader_write h hwidth hheight
    ((writeColumns image band.y0 band.y1 background (List.range' band.x0 band.width) caches).1 ++ rest) o
  obtain ⟨s', o', out', hd, hm', hctx, hv', hs, hk⟩ := decodeVbars_write image background h3 h4 h52
    rest (List.range' band.x0 band.width) caches s o₁ out (fun x hx => lt_of_lt_of_le ((hmem x).mp hx).2 h2) hm hv
  refine ⟨s', o', out', ?_, hm', hctx, hv', fun x y hc => ?_, fun x y c hx hc => ?_⟩
  · unfold decodeBand
    rw [ho₁]
    dsimp only
    rw [if_neg (by omega), if_neg (by omega), hxe, hye,
      if_neg (show ¬ band.y1 - band.y0 > maxBandHeight from Nat.not_lt.mpr h52)]
    exact hd
  · obtain ⟨hx, hy⟩ := Area.contains_iff.mp hc
    exact hs x y ((hmem x).mpr hx) hy.1 hy.2
  · refine hk x y c hx fun hh => ?_
    rw [Area.contains_iff.mpr ⟨(hmem x).mp hh.1, hh.2⟩] at hc
    cases hc

theorem writeBand_length (image : Image) (background : Color) (band : Area) (caches : Caches) :
    11 ≤ (writeBand image background band caches).1.length := by
  simp [writeBand, writeBgr_length]
  omega

/-- **All bands of a stream show their pixels** and keep the storages mirrored. -/
theorem decodeBandsLoop_write (image : Image) (hwidth : t.width ≤ maxDimension)
    (hheight : t.height ≤ maxDimension) : ∀ (l : List (Color × Area)) (caches : Caches) (s : Decoder) (fuel o : ℕ)
    (out : List UInt8), (∀ b ∈ l, BandOk t b.1 b.2) → caches.Mirrored s → t.Valid out →
    (writeBands image l caches).1.length < fuel →
    ∃ s' out', decodeBandsLoop t fuel s ⟨(writeBands image l caches).1, o⟩ out = some (.ok (s', out')) ∧
      (writeBands image l caches).2.Mirrored s' ∧ s.SameContext s' ∧ PaintsAll image t (l.map (·.2)) out out'
  | [], caches, s, fuel, o, out, _, hm, hv, hf => by
    obtain ⟨fuel, rfl⟩ : ∃ f, fuel = f + 1 := ⟨fuel - 1, by omega⟩
    exact ⟨s, out, rfl, hm, ⟨rfl, rfl⟩, .nil hv⟩
  | (background, band) :: l, caches, s, fuel, o, out, hl, hm, hv, hf => by
    have hlen := writeBand_length image background band caches
    unfold writeBands at hf ⊢
    dsimp only at hf ⊢
    rw [length_append] at hf
    obtain ⟨fuel, rfl⟩ : ∃ f, fuel = f + 1 := ⟨fuel - 1, by omega⟩
    obtain ⟨s₁, o₁, out₁, hd, hm₁, hctx₁, hp⟩ := decodeBand_write image (hl _ mem_cons_self) hwidth
      hheight hm hv (writeBands image l (writeBand image background band caches).2).1 o
    obtain ⟨s₂, out₂, hd₂, hm₂, hctx₂, hp₂⟩ := decodeBandsLoop_write image hwidth hheight l _ s₁ fuel o₁ out₁
      (fun b hb => hl b (mem_cons_of_mem _ hb)) hm₁ hp.valid (by dsimp only; omega)
    refine ⟨s₂, out₂, ?_, hm₂, ⟨hctx₂.1.trans hctx₁.1, hctx₂.2.trans hctx₁.2⟩, .cons hp hp₂⟩
    rw [decodeBandsLoop, if_neg, hd]
    · exact hd₂
    · rw [Reader.empty, List.isEmpty_iff, ← length_eq_zero_iff, length_append]
      omega

end Clear
end Codec
end Farland
