/-
# The fields of RDPGFX messages, both ways

What the decoders of `channels/rdpgfx.cpp` check of a rectangle, a slot, a
capability set and the rest, and that each reader undoes its writer and each
writer its reader. A capability set is the one field whose bytes are not all
read: version 10.1 carries sixteen bytes that the specification reserves.

Key theorems: `readRect16_inverse`, `readMonitorDef_inverse`,
`readArray_readsBack`, `readArray_took`, `readCapabilitySet_readsBack`,
`readCapabilitySet_took`.
-/
import Farland.Base.ReadBack
import Farland.Channels.Rdpgfx.Pdu

namespace Farland
namespace Channels
namespace Rdpgfx

open Parse LittleEndian List Option Nat Bool CapVersion Writer

/-! ### Plain fields -/

/-- A rectangle of 16-bit coordinates that is not empty. -/
structure Rect16.Valid (r : Rect16) : Prop where
  left : r.left < 2 ^ 16
  top : r.top < 2 ^ 16
  right : r.right < 2 ^ 16
  bottom : r.bottom < 2 ^ 16
  filled : r.empty = false

structure Point16.Valid (p : Point16) : Prop where
  xLo : -(2 ^ 15) ≤ p.x
  xHi : p.x < 2 ^ 15
  yLo : -(2 ^ 15) ≤ p.y
  yHi : p.y < 2 ^ 15

structure Color32.Valid (c : Color32) : Prop where
  b : c.b < 2 ^ 8
  g : c.g < 2 ^ 8
  r : c.r < 2 ^ 8
  xa : c.xa < 2 ^ 8

def Signed32 (v : ℤ) : Prop := -(2 ^ 31) ≤ v ∧ v < 2 ^ 31

structure MonitorDef.Valid (m : MonitorDef) : Prop where
  left : Signed32 m.left
  top : Signed32 m.top
  right : Signed32 m.right
  bottom : Signed32 m.bottom
  flags : m.flags < 2 ^ 32

structure CacheEntryMetadata.Valid (e : CacheEntryMetadata) : Prop where
  cacheKey : e.cacheKey < 2 ^ 64
  bitmapLength : e.bitmapLength < 2 ^ 32

/-- A cache slot, counted from 1. -/
def ValidSlot (slot : ℕ) : Prop := 1 ≤ slot ∧ slot ≤ maxCacheSlots

theorem validPixelFormat_lt {format : ℕ} (h : validPixelFormat format = true) : format < 2 ^ 8 := by
  simp only [validPixelFormat, or_eq_true, beq_iff_eq, PixelFormat.xrgb8888, PixelFormat.argb8888] at h
  omega

theorem readRect16_inverse : Inverse readRect16 writeRect16 Rect16.Valid where
  readsBack := by
    rintro ⟨left, top, right, bottom⟩ ⟨hl, ht, hr, hb, hfilled⟩
    unfold readRect16 writeRect16
    apply ReadsBack.at_
    intro start
    apply (u16le_readsBack hl).bind
    apply (u16le_readsBack ht).bind
    apply (u16le_readsBack hr).bind
    apply (u16le_readsBack hb).map
    exact ReadsBack.unless (by rw [hfilled]; exact Bool.false_ne_true) (ReadsBack.pure _)
  took := by
    apply Took.at_
    intro start
    apply u16le_inverse.bind
    intro left hl
    apply u16le_inverse.bind
    intro top ht
    apply u16le_inverse.bind
    intro right hr
    apply u16le_inverse.bind
    intro bottom hb
    apply Took.ite
    · exact fun _ => Took.fail _ _ _
    · intro hfilled
      apply Took.pure
      exact ⟨⟨hl, ht, hr, hb, not_eq_true _ ▸ hfilled⟩, by simp [writeRect16]⟩

theorem readPoint16_inverse : Inverse readPoint16 writePoint16 Point16.Valid where
  readsBack := by
    rintro ⟨x, y⟩ ⟨hxlo, hxhi, hylo, hyhi⟩
    apply (u16le_readsBack (toUnsigned_lt 16 x)).bind
    apply (u16le_readsBack (toUnsigned_lt 16 y)).map
    rw [toSigned_toUnsigned (w := 15) hxlo hxhi, toSigned_toUnsigned (w := 15) hylo hyhi]
    exact ReadsBack.pure _
  took := by
    apply u16le_inverse.bind
    intro x hx
    apply u16le_inverse.bind
    intro y hy
    apply Took.pure
    have hxs := toSigned_mem (w := 15) hx
    have hys := toSigned_mem (w := 15) hy
    exact ⟨⟨hxs.1, hxs.2, hys.1, hys.2⟩, by
      simp only [writePoint16, toUnsigned_toSigned hx, toUnsigned_toSigned hy, append_nil]⟩

theorem readColor32_inverse : Inverse readColor32 writeColor32 Color32.Valid where
  readsBack := by
    rintro ⟨b, g, r, xa⟩ ⟨hb, hg, hr, hxa⟩
    unfold readColor32 writeColor32
    apply (u8_readsBack hb).bind
    apply (u8_readsBack hg).bind
    apply (u8_readsBack hr).bind
    exact (u8_readsBack hxa).map (ReadsBack.pure _)
  took := by
    apply u8_inverse.bind
    intro b hb
    apply u8_inverse.bind
    intro g hg
    apply u8_inverse.bind
    intro r hr
    apply u8_inverse.bind
    intro xa hxa
    exact Took.pure ⟨⟨hb, hg, hr, hxa⟩, by simp [writeColor32]⟩

theorem readPixelFormat_inverse : Inverse readPixelFormat u8 fun format => validPixelFormat format = true where
  readsBack := by
    intro format h
    apply ReadsBack.at_
    intro start
    apply (u8_readsBack (validPixelFormat_lt h)).map
    exact ReadsBack.unless (by simp [h]) (ReadsBack.pure _)
  took := by
    apply Took.at_
    intro start
    apply u8_inverse.bind
    intro format _
    apply Took.ite
    · exact fun _ => Took.fail _ _ _
    · intro h
      exact Took.pure ⟨by simpa using h, by simp⟩

theorem readCacheSlot_inverse : Inverse readCacheSlot u16le ValidSlot where
  readsBack := by
    intro slot h
    obtain ⟨hlo, hhi⟩ := h
    have hslot : slot < 2 ^ 16 := lt_of_le_of_lt hhi (by decide)
    apply ReadsBack.at_
    intro start
    apply (u16le_readsBack hslot).map
    exact ReadsBack.unless (by omega) (ReadsBack.pure _)
  took := by
    apply Took.at_
    intro start
    apply u16le_inverse.bind
    intro slot _
    apply Took.ite
    · exact fun _ => Took.fail _ _ _
    · intro h
      exact Took.pure ⟨⟨by omega, by omega⟩, by simp⟩

/-- A length and as many bytes. -/
theorem readBitmapData_inverse :
    Inverse readBitmapData (fun data => u32le data.length ++ data) fun data => data.length < 2 ^ 32 where
  readsBack := fun {data} h => (u32le_readsBack h).bind (bytes_readsBack data)
  took := by
    apply u32le_inverse.bind
    intro length hlength
    apply (bytes_took length).imp
    rintro data _ ⟨rfl, rfl⟩
    exact ⟨hlength, rfl⟩

theorem readMonitorDef_inverse : Inverse readMonitorDef writeMonitorDef MonitorDef.Valid where
  readsBack := by
    rintro ⟨left, top, right, bottom, flags⟩ ⟨hl, ht, hr, hb, hf⟩
    unfold readMonitorDef writeMonitorDef
    apply (u32le_readsBack (toUnsigned_lt 32 left)).bind
    apply (u32le_readsBack (toUnsigned_lt 32 top)).bind
    apply (u32le_readsBack (toUnsigned_lt 32 right)).bind
    apply (u32le_readsBack (toUnsigned_lt 32 bottom)).bind
    apply (u32le_readsBack hf).map
    rw [toSigned_toUnsigned (w := 31) hl.1 hl.2, toSigned_toUnsigned (w := 31) ht.1 ht.2,
      toSigned_toUnsigned (w := 31) hr.1 hr.2, toSigned_toUnsigned (w := 31) hb.1 hb.2]
    exact ReadsBack.pure _
  took := by
    apply u32le_inverse.bind
    intro left hl
    apply u32le_inverse.bind
    intro top ht
    apply u32le_inverse.bind
    intro right hr
    apply u32le_inverse.bind
    intro bottom hb
    apply u32le_inverse.bind
    intro flags hf
    apply Took.pure
    refine ⟨⟨toSigned_mem (w := 31) hl, toSigned_mem (w := 31) ht, toSigned_mem (w := 31) hr,
      toSigned_mem (w := 31) hb, hf⟩, ?_⟩
    simp only [writeMonitorDef, toUnsigned_toSigned hl, toUnsigned_toSigned ht, toUnsigned_toSigned hr,
      toUnsigned_toSigned hb, append_assoc, append_nil]

theorem readCacheEntry_inverse : Inverse readCacheEntry writeCacheEntry CacheEntryMetadata.Valid where
  readsBack := by
    rintro ⟨cacheKey, bitmapLength⟩ ⟨hkey, hlength⟩
    apply (u64le_readsBack hkey).bind
    exact (u32le_readsBack hlength).map (ReadsBack.pure _)
  took := by
    apply u64le_inverse.bind
    intro cacheKey hkey
    apply u32le_inverse.bind
    intro bitmapLength hlength
    exact Took.pure ⟨⟨hkey, hlength⟩, by simp [writeCacheEntry]⟩

/-! ### Arrays -/

variable {α : Type} {readOne : Parse α}

/-- The check before the array passes when its elements are as long as it assumes. -/
theorem readArray_readsBack {elementSize : ℕ} {l : List α} {bytes : List UInt8}
    (hsize : elementSize * l.length ≤ bytes.length) (hpos : 0 < elementSize)
    (h : (Reader.readMany readOne l.length).ReadsBack bytes l) :
    (readArray l.length elementSize readOne).ReadsBack bytes l := by
  intro rest o
  have hfits : l.length ≤ (Reader.remaining ⟨bytes ++ rest, o⟩) / elementSize := by
    rw [Nat.le_div_iff_mul_le hpos, Nat.mul_comm]
    simp only [Reader.remaining, length_append]
    omega
  unfold readArray
  rw [if_neg (not_lt.mpr hfits)]
  exact h rest o

theorem readArray_took {W : List α → List UInt8 → Prop} {count elementSize : ℕ}
    (h : (Reader.readMany readOne count).Took W) : (readArray count elementSize readOne).Took W := by
  intro r l r' hr
  unfold readArray at hr
  split_ifs at hr
  · cases hr
  · exact h r l r' hr

theorem flatMap_length {write : α → List UInt8} {size : ℕ} (h : ∀ a, (write a).length = size) (l : List α) :
    (l.flatMap write).length = size * l.length := by
  rw [length_flatMap, funext h, map_const', sum_replicate, smul_eq_mul, Nat.mul_comm]

/-- An array of elements of one size. -/
theorem sizedArray_readsBack {write : α → List UInt8} {Valid : α → Prop} {elementSize : ℕ}
    (h : Inverse readOne write Valid) (hsize : ∀ a, (write a).length = elementSize) (hpos : 0 < elementSize)
    {l : List α} (hl : ∀ a ∈ l, Valid a) : (readArray l.length elementSize readOne).ReadsBack (l.flatMap write) l :=
  readArray_readsBack (flatMap_length hsize l).ge hpos (readMany_readsBack l fun a ha => h.readsBack (hl a ha))

theorem writeRect16_length (r : Rect16) : (writeRect16 r).length = rect16Size := rfl
theorem writePoint16_length (p : Point16) : (writePoint16 p).length = point16Size := rfl
theorem writeColor32_length (c : Color32) : (writeColor32 c).length = 4 := rfl
theorem writeMonitorDef_length (m : MonitorDef) : (writeMonitorDef m).length = monitorDefSize := rfl
theorem writeCacheEntry_length (e : CacheEntryMetadata) : (writeCacheEntry e).length = cacheEntrySize := rfl
theorem writeSlot_length (slot : ℕ) : (u16le slot).length = cacheSlotSize := rfl

/-! ### Capability sets -/

/-- The flags in front of the capsData of a version the specification does not define. -/
def leadingFlags (data : List UInt8) : ℕ := if 4 ≤ data.length then leValue (data.take 4) else 0

/-- The form that capability sets are made and read in. -/
structure CapabilitySet.Normal (set : CapabilitySet) : Prop where
  version : set.version < 2 ^ 32
  defined : (capsDataLength set.version).isSome → set.flags < 2 ^ 32 ∧ set.unknownData = []
  reserved : set.version = v10_1 → set.flags = 0
  unknown : capsDataLength set.version = none →
    set.unknownData.length ≤ maxUnknownCapsDataLength ∧ set.flags = leadingFlags set.unknownData

theorem capsDataLength_v10_1 : capsDataLength v10_1 = some capsDataLengthV10_1 := rfl

theorem eq_of_capsDataLength {version length : ℕ} (h : capsDataLength version = some length)
    (hv : version ≠ v10_1) : length = capsDataLengthFlags := by
  unfold capsDataLength at h
  rw [if_neg hv] at h
  split_ifs at h
  exact (Option.some.inj h).symm

theorem leadingFlags_u32le {flags : ℕ} (h : flags < 2 ^ 32) : leadingFlags (u32le flags) = flags := by
  unfold leadingFlags
  exact (leValue_leBytes 4 flags).trans (mod_eq_of_lt h)

/-- **Sets as the server makes them** are in normal form. -/
theorem makeCapabilitySet_normal {version flags : ℕ} (hv : version < 2 ^ 32) (hf : flags < 2 ^ 32) :
    (makeCapabilitySet version flags).Normal := by
  unfold makeCapabilitySet
  by_cases h10 : version = v10_1
  · rw [if_pos h10]
    exact ⟨hv, fun _ => ⟨Nat.two_pow_pos 32, rfl⟩, fun _ => rfl, fun h => by
      subst h10
      cases capsDataLength_v10_1.symm.trans h⟩
  rw [if_neg h10]
  by_cases hunknown : (capsDataLength version).isNone
  · rw [if_pos hunknown]
    have hnone := isNone_iff_eq_none.mp hunknown
    refine ⟨hv, fun h => ?_, fun h => (h10 h).elim, fun _ => ⟨?_, (leadingFlags_u32le hf).symm⟩⟩
    · rw [hnone] at h
      cases h
    · exact (by decide : (4 : ℕ) ≤ maxUnknownCapsDataLength)
  · rw [if_neg hunknown]
    exact ⟨hv, fun _ => ⟨hf, rfl⟩, fun h => (h10 h).elim, fun h =>
      (hunknown (isNone_iff_eq_none.mpr h)).elim⟩

/-- The bytes of a set whose capsData is `data`. -/
def capsSetBytes (version : ℕ) (data : List UInt8) : List UInt8 :=
  u32le version ++ (u32le data.length ++ data)

/-- The capsData of a set in normal form. -/
def capsData (set : CapabilitySet) : List UInt8 :=
  if (capsDataLength set.version).isNone then set.unknownData
  else if set.version = v10_1 then zeros capsDataLengthV10_1
  else u32le set.flags

variable {set : CapabilitySet}

theorem capsData_length_le (h : set.Normal) : (capsData set).length ≤ maxUnknownCapsDataLength := by
  unfold capsData
  split_ifs with hnone h10
  · exact (h.unknown (isNone_iff_eq_none.mp hnone)).1
  · decide
  · exact (by decide : (4 : ℕ) ≤ maxUnknownCapsDataLength)

theorem writeCapabilitySet_eq (h : set.Normal) :
    writeCapabilitySet set = some (capsSetBytes set.version (capsData set)) := by
  unfold writeCapabilitySet capsData capsSetBytes
  cases hlength : capsDataLength set.version with
  | none =>
    have hdata := (h.unknown hlength).1
    have hchecked : checkedLength set.unknownData.length = some set.unknownData.length :=
      if_pos (hdata.trans (by decide))
    simp only [hchecked]
    rfl
  | some length =>
    by_cases h10 : set.version = v10_1
    · rw [h10] at hlength
      cases capsDataLength_v10_1.symm.trans hlength
      simp [h10]
    · cases eq_of_capsDataLength hlength h10
      simp [h10, capsDataLengthFlags]

theorem readCapabilitySet_readsBack (h : set.Normal) :
    readCapabilitySet.ReadsBack (capsSetBytes set.version (capsData set)) set := by
  obtain ⟨version, flags, unknownData⟩ := set
  have hlen := capsData_length_le h
  unfold readCapabilitySet capsSetBytes
  apply (u32le_readsBack h.version).bind
  apply ReadsBack.at_
  intro start
  apply (u32le_readsBack (lt_of_le_of_lt hlen (by decide))).bind
  unfold capsData at hlen ⊢
  cases hlength : capsDataLength version with
  | none =>
    obtain ⟨hdata, hflags⟩ := h.unknown hlength
    simp only [hlength] at hlen ⊢
    apply ReadsBack.unless (not_lt.mpr hlen)
    apply (bytes_readsBack unknownData).map
    unfold leadingFlags at hflags
    split_ifs with h4
    · simp only [Reader.u32le, Reader.readLe, Reader.bytes, if_neg (not_lt.mpr h4)]
      rw [if_pos h4] at hflags
      rw [← hflags]
      exact ReadsBack.pure _
    · rw [if_neg h4] at hflags
      rw [show flags = 0 from hflags]
      exact ReadsBack.pure _
  | some length =>
    obtain ⟨hflags, hunknown⟩ := h.defined (by rw [hlength]; rfl)
    cases hunknown
    by_cases h10 : version = v10_1
    · cases h.reserved h10
      subst h10
      cases capsDataLength_v10_1.symm.trans hlength
      exact fun rest o => rfl
    · cases eq_of_capsDataLength hlength h10
      simp only [isNone_some, false_eq_true, if_false, if_neg h10]
      apply ReadsBack.unless (by simp [capsDataLengthFlags])
      intro rest o
      rw [Parse.bind_ok (Reader.sub_append (u32le flags) rest o rfl), if_pos h10]
      have hback := u32le_readsBack hflags [] o
      rw [append_nil] at hback
      rw [hback]
      rfl

/-- A set that was read is in normal form, and what it was read from is what is
written for it, up to the reserved bytes of version 10.1. -/
theorem readCapabilitySet_took : readCapabilitySet.Took fun set xs =>
    set.Normal ∧ ∃ data, data.length < 2 ^ 32 ∧ xs = capsSetBytes set.version data ∧
      (set.version ≠ v10_1 ∨ (∀ x ∈ data, x = 0) → data = capsData set) := by
  unfold readCapabilitySet capsSetBytes
  apply u32le_inverse.bind
  intro version hversion
  apply Took.at_
  intro start
  apply u32le_inverse.bind
  intro length hlt
  cases hlength : capsDataLength version with
  | none =>
    have h10 : version ≠ v10_1 := by
      rintro rfl
      cases hlength
    have hnormal (data : List UInt8) (hdata : data.length ≤ maxUnknownCapsDataLength) :
        CapabilitySet.Normal ⟨version, leadingFlags data, data⟩ := by
      refine ⟨hversion, fun h => ?_, fun h => (h10 h).elim, fun _ => ⟨hdata, rfl⟩⟩
      rw [hlength] at h
      cases h
    apply Took.ite (fun _ => Took.fail _ _ _)
    intro hmax
    apply (bytes_took length).bind
    rintro _ data ⟨rfl, rfl⟩
    have hset : Took (pure ⟨version, leadingFlags data, data⟩ : Parse CapabilitySet) fun set ys =>
        set.Normal ∧ ∃ bytes, bytes.length < 2 ^ 32 ∧
          u32le version ++ (u32le data.length ++ (data ++ ys)) =
            u32le set.version ++ (u32le bytes.length ++ bytes) ∧
          (set.version ≠ v10_1 ∨ (∀ x ∈ bytes, x = 0) → bytes = capsData set) := by
      apply Took.pure
      exact ⟨hnormal data (not_lt.mp hmax), data, hlt, by rw [append_nil], fun _ => by simp [capsData, hlength]⟩
    unfold leadingFlags at hset
    split_ifs with h4
    · simp only [Reader.u32le, Reader.readLe, Reader.bytes, if_neg (not_lt.mpr h4)]
      rwa [if_pos h4] at hset
    · rwa [if_neg h4] at hset
  | some expected =>
    apply Took.ite (fun _ => Took.fail _ _ _)
    intro hexpected
    obtain rfl : length = expected := not_not.mp hexpected
    apply (sub_took length).bind
    rintro data _ ⟨hdata, rfl⟩
    have hnormal (flags : ℕ) (hf : flags < 2 ^ 32) (h : version = v10_1 → flags = 0) :
        CapabilitySet.Normal { version := version, flags := flags } := by
      refine ⟨hversion, fun _ => ⟨hf, rfl⟩, h, fun hnone => ?_⟩
      cases hlength.symm.trans hnone
    by_cases h10 : version = v10_1
    · rw [if_neg (not_not.mpr h10)]
      apply Took.pure
      refine ⟨hnormal 0 (by decide) fun _ => rfl, data.rest, hdata ▸ hlt, by simp [hdata], ?_⟩
      rintro (h | hzero)
      · exact (h h10).elim
      · subst h10
        cases capsDataLength_v10_1.symm.trans hlength
        exact eq_replicate_iff.mpr ⟨hdata, hzero⟩
    · rw [if_pos h10]
      cases eq_of_capsDataLength hlength h10
      rcases hread : Reader.u32le data with e | ⟨flags, r⟩
      · exact fun _ _ _ h => by cases h
      · obtain ⟨xs, hxs, hflags, rfl⟩ := u32le_inverse.took data flags r hread
        have hrest : r.rest = [] := by
          have hlen := congrArg List.length hxs
          rw [hdata, length_append, u32le_length] at hlen
          exact length_eq_zero_iff.mp (by simp only [capsDataLengthFlags] at hlen; omega)
        rw [hrest] at hxs
        apply Took.pure
        refine ⟨hnormal flags hflags fun h => (h10 h).elim, u32le flags, by simp, by rw [hxs]; simp [capsDataLengthFlags], ?_⟩
        intro _
        simp [capsData, hlength, h10]

end Rdpgfx
end Channels
end Farland
