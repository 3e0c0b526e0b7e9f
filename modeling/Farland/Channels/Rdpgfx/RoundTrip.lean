/-
# RDPGFX messages, both ways

Whatever `decode_pdu` accepts is a valid message, and its bytes are the ones
`encode` writes for it, up to the bytes that nothing reads: the header's flags,
the reserved fields of the output mappings, the capsData of version 10.1 and
the padding of a graphics reset. `reservedBytes` collects these of a message.

Key theorems: `bodies_restored`, `pdus_roundTrip`.
-/
import Farland.Channels.Rdpgfx.Messages

namespace Farland
namespace Channels
namespace Rdpgfx

open Parse LittleEndian List Writer Whole Cmd CapVersion

variable {body : List UInt8} {pdu : Pdu} {command : ℕ}

/-! ### What nothing reads -/

/-- The reserved capsData of `count` capability sets. -/
def capsReserved : ℕ → List UInt8 → List UInt8
  | 0, _ => []
  | count + 1, data =>
    let length := leValue ((data.drop 4).take 4)
    (if leValue (data.take 4) = v10_1 then (data.drop 8).take length else []) ++
      capsReserved count (data.drop (8 + length))

/-- The reserved and padding bytes of a body. -/
def bodyReserved (command : ℕ) (body : List UInt8) : List UInt8 :=
  if command = mapSurfaceToOutput ∨ command = mapSurfaceToScaledOutput then (body.drop 2).take 2
  else if command = resetGraphics then
    body.drop (resetGraphicsFixedSize + monitorDefSize * leValue ((body.drop 8).take 4))
  else if command = capsAdvertise then capsReserved (leValue (body.take 2)) (body.drop 2)
  else if command = capsConfirm then capsReserved 1 body
  else []

/-- The header's flags, and the bytes of the body that nothing reads. -/
def reservedBytes (data : List UInt8) : List UInt8 :=
  (data.drop 2).take 2 ++ bodyReserved (leValue (data.take 2)) (data.drop headerSize)

def AllZero (bytes : List UInt8) : Prop := ∀ b ∈ bytes, b = 0

theorem eq_zeros {bytes : List UInt8} {n : ℕ} (hlength : bytes.length = n) (h : AllZero bytes) :
    bytes = zeros n :=
  eq_replicate_iff.mpr ⟨hlength, h⟩

/-- What a decoder of the body of `command` gives: a valid message of that
command, which is written as the bytes it was read from. -/
def Restored (command : ℕ) (pdu : Pdu) (body : List UInt8) : Prop :=
  headerSize + body.length < 2 ^ 32 → pdu.Valid ∧ cmdId pdu = command ∧
    (AllZero (bodyReserved command body) → encodeBody pdu = some body)

/-- A message without reserved bytes. -/
theorem Restored.of_all (h : headerSize + body.length < 2 ^ 32 → pdu.Valid ∧ encodeBody pdu = some body) :
    Restored (cmdId pdu) pdu body :=
  fun hlength => ⟨(h hlength).1, rfl, fun _ => (h hlength).2⟩

/-- A message without reserved bytes, whatever its length. -/
theorem Restored.of (hvalid : pdu.Valid) (h : encodeBody pdu = some body) :
    Restored (cmdId pdu) pdu body :=
  Restored.of_all fun _ => ⟨hvalid, h⟩

theorem readArray_took_all {α : Type} {readOne : Parse α} {write : α → List UInt8} {Valid : α → Prop}
    (h : Inverse readOne write Valid) (count elementSize : ℕ) :
    (readArray count elementSize readOne).Took fun l xs =>
      l.length = count ∧ (∀ a ∈ l, Valid a) ∧ xs = l.flatMap write :=
  readArray_took (readMany_took h count)

/-! ### One message after the other -/

theorem decodeWireToSurface1_whole : decodeWireToSurface1.Whole (Restored wireToSurface1) := by
  refine u16le_inverse.whole ?_
  intro surfaceId hs
  refine u16le_inverse.whole ?_
  intro codecId hc
  refine readPixelFormat_inverse.whole ?_
  intro pixelFormat hp
  refine readRect16_inverse.whole ?_
  intro destRect hr
  refine readBitmapData_inverse.whole ?_
  intro bitmapData hd
  refine expectEnd ?_
  apply Restored.of_all
  intro hlength
  simp only [length_append, u16le_length, u8_length, writeRect16_length, u32le_length, rect16Size] at hlength
  refine ⟨⟨hs, hc, hp, hr, by omega⟩, ?_⟩
  simp [encodeBody, writeBitmapData_eq hd]

theorem decodeWireToSurface2_whole : decodeWireToSurface2.Whole (Restored wireToSurface2) := by
  refine u16le_inverse.whole ?_
  intro surfaceId hs
  refine u16le_inverse.whole ?_
  intro codecId hc
  refine u32le_inverse.whole ?_
  intro codecContextId hx
  refine readPixelFormat_inverse.whole ?_
  intro pixelFormat hp
  refine readBitmapData_inverse.whole ?_
  intro bitmapData hd
  refine expectEnd ?_
  apply Restored.of_all
  intro hlength
  simp only [length_append, u16le_length, u8_length, u32le_length] at hlength
  refine ⟨⟨hs, hc, hx, hp, by omega⟩, ?_⟩
  simp [encodeBody, writeBitmapData_eq hd]

theorem decodeDeleteEncodingContext_whole : decodeDeleteEncodingContext.Whole (Restored deleteEncodingContext) := by
  refine u16le_inverse.whole ?_
  intro surfaceId hs
  refine u32le_inverse.whole ?_
  intro codecContextId hc
  refine expectEnd ?_
  exact Restored.of ⟨hs, hc⟩ (by simp [encodeBody])

theorem decodeSolidFill_whole : decodeSolidFill.Whole (Restored solidFill) := by
  refine u16le_inverse.whole ?_
  intro surfaceId hs
  refine readColor32_inverse.whole ?_
  intro fillPixel hp
  refine u16le_inverse.whole ?_
  intro count hn
  refine (readArray_took_all readRect16_inverse count rect16Size).whole ?_
  rintro fillRects _ ⟨rfl, hrects, rfl⟩
  refine expectEnd ?_
  exact Restored.of ⟨hs, hp, hn, hrects⟩ (by simp [encodeBody, checkedCount_eq hn])

theorem decodeSurfaceToSurface_whole : decodeSurfaceToSurface.Whole (Restored surfaceToSurface) := by
  refine u16le_inverse.whole ?_
  intro surfaceIdSrc hs
  refine u16le_inverse.whole ?_
  intro surfaceIdDest hd
  refine readRect16_inverse.whole ?_
  intro rectSrc hr
  refine u16le_inverse.whole ?_
  intro count hn
  refine (readArray_took_all readPoint16_inverse count point16Size).whole ?_
  rintro destPts _ ⟨rfl, hpts, rfl⟩
  refine expectEnd ?_
  exact Restored.of ⟨hs, hd, hr, hn, hpts⟩ (by simp [encodeBody, checkedCount_eq hn])

theorem decodeSurfaceToCache_whole : decodeSurfaceToCache.Whole (Restored surfaceToCache) := by
  refine u16le_inverse.whole ?_
  intro surfaceId hs
  refine u64le_inverse.whole ?_
  intro cacheKey hk
  refine readCacheSlot_inverse.whole ?_
  intro cacheSlot hc
  refine readRect16_inverse.whole ?_
  intro rectSrc hr
  refine expectEnd ?_
  exact Restored.of ⟨hs, hk, hc, hr⟩ (by simp [encodeBody])

theorem decodeCacheToSurface_whole : decodeCacheToSurface.Whole (Restored cacheToSurface) := by
  refine readCacheSlot_inverse.whole ?_
  intro cacheSlot hc
  refine u16le_inverse.whole ?_
  intro surfaceId hs
  refine u16le_inverse.whole ?_
  intro count hn
  refine (readArray_took_all readPoint16_inverse count point16Size).whole ?_
  rintro destPts _ ⟨rfl, hpts, rfl⟩
  refine expectEnd ?_
  exact Restored.of ⟨hc, hs, hn, hpts⟩ (by simp [encodeBody, checkedCount_eq hn])

theorem decodeEvictCacheEntry_whole : decodeEvictCacheEntry.Whole (Restored evictCacheEntry) := by
  refine readCacheSlot_inverse.whole ?_
  intro cacheSlot hc
  refine expectEnd ?_
  exact Restored.of hc (by simp [encodeBody])

theorem decodeCreateSurface_whole : decodeCreateSurface.Whole (Restored createSurface) := by
  refine u16le_inverse.whole ?_
  intro surfaceId hs
  refine at_ ?_
  intro start
  refine u16le_inverse.whole ?_
  intro width hw
  refine u16le_inverse.whole ?_
  intro height hh
  refine Whole.ite (fun _ => Whole.fail _ _ _) ?_
  intro hfilled
  refine readPixelFormat_inverse.whole ?_
  intro pixelFormat hp
  refine expectEnd ?_
  exact Restored.of ⟨hs, hw, hh, hfilled, hp⟩ (by simp [encodeBody])

theorem decodeDeleteSurface_whole : decodeDeleteSurface.Whole (Restored deleteSurface) := by
  refine u16le_inverse.whole ?_
  intro surfaceId hs
  refine expectEnd ?_
  exact Restored.of hs (by simp [encodeBody])

theorem decodeStartFrame_whole : decodeStartFrame.Whole (Restored startFrame) := by
  refine u32le_inverse.whole ?_
  intro timestamp ht
  refine u32le_inverse.whole ?_
  intro frameId hf
  refine expectEnd ?_
  exact Restored.of ⟨ht, hf⟩ (by simp [encodeBody])

theorem decodeEndFrame_whole : decodeEndFrame.Whole (Restored endFrame) := by
  refine u32le_inverse.whole ?_
  intro frameId hf
  refine expectEnd ?_
  exact Restored.of hf (by simp [encodeBody])

theorem decodeFrameAcknowledge_whole : decodeFrameAcknowledge.Whole (Restored frameAcknowledge) := by
  refine u32le_inverse.whole ?_
  intro queueDepth hq
  refine u32le_inverse.whole ?_
  intro frameId hf
  refine u32le_inverse.whole ?_
  intro totalFramesDecoded ht
  refine expectEnd ?_
  exact Restored.of ⟨hq, hf, ht⟩ (by simp [encodeBody])

theorem decodeCacheImportOffer_whole : decodeCacheImportOffer.Whole (Restored cacheImportOffer) := by
  refine at_ ?_
  intro start
  refine u16le_inverse.whole ?_
  intro count hn
  refine Whole.ite (fun _ => Whole.fail _ _ _) ?_
  intro hmax
  refine (readArray_took_all readCacheEntry_inverse count cacheEntrySize).whole ?_
  rintro entries _ ⟨rfl, hentries, rfl⟩
  refine expectEnd ?_
  have hle := not_lt.mp hmax
  exact Restored.of ⟨hle, hentries⟩ (by simp [encodeBody, checkedCount_eq hn, hle])

theorem decodeCacheImportReply_whole : decodeCacheImportReply.Whole (Restored cacheImportReply) := by
  refine at_ ?_
  intro start
  refine u16le_inverse.whole ?_
  intro count hn
  refine Whole.ite (fun _ => Whole.fail _ _ _) ?_
  intro hmax
  refine (readArray_took_all readCacheSlot_inverse count cacheSlotSize).whole ?_
  rintro cacheSlots _ ⟨rfl, hslots, rfl⟩
  refine expectEnd ?_
  have hle := not_lt.mp hmax
  exact Restored.of ⟨hle, hslots⟩ (by simp [encodeBody, checkedCount_eq hn, hle])

theorem decodeMapSurfaceToWindow_whole : decodeMapSurfaceToWindow.Whole (Restored mapSurfaceToWindow) := by
  refine u16le_inverse.whole ?_
  intro surfaceId hs
  refine u64le_inverse.whole ?_
  intro windowId hi
  refine u32le_inverse.whole ?_
  intro mappedWidth hw
  refine u32le_inverse.whole ?_
  intro mappedHeight hh
  refine expectEnd ?_
  exact Restored.of ⟨hs, hi, hw, hh⟩ (by simp [encodeBody])

theorem decodeQoeFrameAcknowledge_whole : decodeQoeFrameAcknowledge.Whole (Restored qoeFrameAcknowledge) := by
  refine u32le_inverse.whole ?_
  intro frameId hf
  refine u32le_inverse.whole ?_
  intro timestamp ht
  refine u16le_inverse.whole ?_
  intro timeDiffSe hs
  refine u16le_inverse.whole ?_
  intro timeDiffEdr he
  refine expectEnd ?_
  exact Restored.of ⟨hf, ht, hs, he⟩ (by simp [encodeBody])

theorem decodeMapSurfaceToScaledWindow_whole :
    decodeMapSurfaceToScaledWindow.Whole (Restored mapSurfaceToScaledWindow) := by
  refine u16le_inverse.whole ?_
  intro surfaceId hs
  refine u64le_inverse.whole ?_
  intro windowId hi
  refine u32le_inverse.whole ?_
  intro mappedWidth hw
  refine u32le_inverse.whole ?_
  intro mappedHeight hh
  refine u32le_inverse.whole ?_
  intro targetWidth htw
  refine u32le_inverse.whole ?_
  intro targetHeight hth
  refine expectEnd ?_
  exact Restored.of ⟨hs, hi, hw, hh, htw, hth⟩ (by simp [encodeBody])

/-! ### Messages with reserved bytes -/

theorem eq_reserved {bytes : List UInt8} (hlength : bytes.length = 2) (h : AllZero bytes) : bytes = u16le 0 :=
  eq_zeros hlength h

theorem decodeMapSurfaceToOutput_whole : decodeMapSurfaceToOutput.Whole (Restored mapSurfaceToOutput) := by
  refine u16le_inverse.whole ?_
  intro surfaceId hs
  refine (skip_took 2).whole ?_
  intro _ reserved hr
  refine u32le_inverse.whole ?_
  intro outputOriginX hx
  refine u32le_inverse.whole ?_
  intro outputOriginY hy
  refine expectEnd ?_
  refine fun _ => ⟨⟨hs, hx, hy⟩, rfl, fun hzero => ?_⟩
  have hreserved : AllZero reserved := by
    have htake : ((u16le surfaceId ++ (reserved ++ (u32le outputOriginX ++
        (u32le outputOriginY ++ [])))).drop 2).take 2 = reserved := by
      rw [drop_left' (by simp), take_left' hr]
    rwa [bodyReserved, htake] at hzero
  rw [eq_reserved hr hreserved]
  simp [encodeBody]

theorem decodeMapSurfaceToScaledOutput_whole :
    decodeMapSurfaceToScaledOutput.Whole (Restored mapSurfaceToScaledOutput) := by
  refine u16le_inverse.whole ?_
  intro surfaceId hs
  refine (skip_took 2).whole ?_
  intro _ reserved hr
  refine u32le_inverse.whole ?_
  intro outputOriginX hx
  refine u32le_inverse.whole ?_
  intro outputOriginY hy
  refine u32le_inverse.whole ?_
  intro targetWidth hw
  refine u32le_inverse.whole ?_
  intro targetHeight hh
  refine expectEnd ?_
  refine fun _ => ⟨⟨hs, hx, hy, hw, hh⟩, rfl, fun hzero => ?_⟩
  have hreserved : AllZero reserved := by
    have htake : ((u16le surfaceId ++ (reserved ++ (u32le outputOriginX ++
        (u32le outputOriginY ++ (u32le targetWidth ++ (u32le targetHeight ++ [])))))).drop 2).take 2 = reserved := by
      rw [drop_left' (by simp), take_left' hr]
    rwa [bodyReserved, htake] at hzero
  rw [eq_reserved hr hreserved]
  simp [encodeBody]

/-- The message is 340 bytes long, so its padding is as long as the one that is written. -/
theorem decodeResetGraphics_restored {r r' : Reader} (hoffset : r.offset = headerSize)
    (h : decodeResetGraphics r = .ok (pdu, r')) : Restored resetGraphics pdu r.rest := by
  unfold decodeResetGraphics at h
  split_ifs at h with hsize
  · cases h
  have hlength : headerSize + r.rest.length = resetGraphicsPduSize := hoffset ▸ not_not.mp hsize
  revert hlength
  refine (at_ fun start => ?_ : Whole _ fun pdu body =>
    headerSize + body.length = resetGraphicsPduSize → Restored resetGraphics pdu body) r pdu r' h
  refine u32le_inverse.whole ?_
  intro width hw
  refine u32le_inverse.whole ?_
  intro height hh
  refine Whole.ite (fun _ => Whole.fail _ _ _) ?_
  intro hvalid
  refine at_ ?_
  intro countAt
  refine u32le_inverse.whole ?_
  intro count hcount
  refine Whole.ite (fun _ => Whole.fail _ _ _) ?_
  intro hmax
  refine (readArray_took_all readMonitorDef_inverse count monitorDefSize).whole ?_
  rintro monitors _ ⟨rfl, hmonitors, rfl⟩
  rintro ⟨pad, o⟩ b r₁ hb hlength
  obtain ⟨u, r₂, -, hpure⟩ := Parse.of_bind_ok hb
  cases hpure
  have hle := not_lt.mp hmax
  refine fun _ => ⟨⟨hvalid, hle, hmonitors⟩, rfl, fun hzero => ?_⟩
  have hstart : (u32le width ++ (u32le height ++ (u32le monitors.length ++
      monitors.flatMap writeMonitorDef))).length = resetGraphicsFixedSize + monitorDefSize * monitors.length := by
    simp only [length_append, u32le_length, flatMap_length writeMonitorDef_length, resetGraphicsFixedSize]
    omega
  have hpad : AllZero pad := by
    have hdrop : (u32le width ++ (u32le height ++ (u32le monitors.length ++
        (monitors.flatMap writeMonitorDef ++ pad)))).drop
          (resetGraphicsFixedSize + monitorDefSize * monitors.length) = pad := by
      rw [← hstart]
      exact drop_left
    have hread : leValue (((u32le width ++ (u32le height ++ (u32le monitors.length ++
        (monitors.flatMap writeMonitorDef ++ pad)))).drop 8).take 4) = monitors.length := by
      exact (leValue_leBytes 4 _).trans (Nat.mod_eq_of_lt hcount)
    rw [bodyReserved, hread, hdrop] at hzero
    exact hzero
  have hpadLength : pad.length =
      resetGraphicsPduSize - headerSize - resetGraphicsFixedSize - monitors.length * monitorDefSize := by
    simp only [length_append, u32le_length, flatMap_length writeMonitorDef_length] at hlength
    simp only [resetGraphicsFixedSize, monitorDefSize] at hlength ⊢
    omega
  rw [encodeBody, if_pos hle, ← eq_zeros hpadLength hpad]
  simp

theorem capsReserved_cons {version count : ℕ} {data rest : List UInt8} (hv : version < 2 ^ 32)
    (hdata : data.length < 2 ^ 32) :
    capsReserved (count + 1) (capsSetBytes version data ++ rest) =
      (if version = v10_1 then data else []) ++ capsReserved count rest := by
  have hversion : leValue ((capsSetBytes version data ++ rest).take 4) = version := by
    exact (leValue_leBytes 4 _).trans (Nat.mod_eq_of_lt hv)
  have hlength : leValue (((capsSetBytes version data ++ rest).drop 4).take 4) = data.length := by
    exact (leValue_leBytes 4 _).trans (Nat.mod_eq_of_lt hdata)
  have hdrop : (capsSetBytes version data ++ rest).drop 8 = data ++ rest := by
    rw [capsSetBytes, ← append_assoc, append_assoc _ data rest, drop_left' (by simp)]
  rw [capsReserved, hversion, hlength, hdrop, take_left' rfl, ← drop_drop, hdrop, drop_left' rfl]

theorem readCapabilitySets_took : ∀ count : ℕ, (Reader.readMany readCapabilitySet count).Took fun sets xs =>
    sets.length = count ∧ (∀ s ∈ sets, s.Normal) ∧
      (AllZero (capsReserved count xs) → sets.mapM writeCapabilitySet = some (sets.map fun set =>
        capsSetBytes set.version (capsData set)) ∧ xs = capsSetsBytes sets)
  | 0 => Took.pure ⟨rfl, by simp, fun _ => ⟨rfl, rfl⟩⟩
  | count + 1 => by
    apply readCapabilitySet_took.bind
    rintro set _ ⟨hset, data, hdata, rfl, hwritten⟩
    apply (readCapabilitySets_took count).bind
    rintro sets xs ⟨rfl, hsets, hall⟩
    apply Took.pure
    have hnormal : ∀ s ∈ set :: sets, s.Normal := forall_mem_cons.mpr ⟨hset, hsets⟩
    refine ⟨rfl, hnormal, fun hzero => ⟨mapM_writeCapabilitySet hnormal, ?_⟩⟩
    rw [append_nil] at hzero ⊢
    rw [capsReserved_cons hset.version hdata] at hzero
    obtain ⟨-, rfl⟩ := hall fun x hx => hzero x (mem_append_right _ hx)
    have hcaps : data = capsData set := by
      apply hwritten
      by_cases h10 : set.version = v10_1
      · exact Or.inr fun x hx => hzero x (mem_append_left _ (by rwa [if_pos h10]))
      · exact Or.inl h10
    rw [hcaps]
    rfl

theorem decodeCapsAdvertise_whole : decodeCapsAdvertise.Whole (Restored capsAdvertise) := by
  refine at_ ?_
  intro start
  refine u16le_inverse.whole ?_
  intro count hn
  refine Whole.ite (fun _ => Whole.fail _ _ _) ?_
  intro hpos
  refine Whole.ite (fun _ => Whole.fail _ _ _) ?_
  intro hmax
  refine (readArray_took (readCapabilitySets_took count)).whole ?_
  rintro capsSets xs ⟨rfl, hsets, hall⟩
  refine Whole.ite (fun _ => Whole.fail _ _ _) ?_
  intro hdistinct
  refine expectEnd ?_
  refine fun _ => ⟨⟨hpos, not_lt.mp hmax, hsets, not_not.mp hdistinct⟩, rfl, fun hzero => ?_⟩
  have hcount : leValue ((u16le capsSets.length ++ (xs ++ [])).take 2) = capsSets.length := by
    exact (leValue_leBytes 2 _).trans (Nat.mod_eq_of_lt hn)
  rw [bodyReserved, hcount, append_nil] at hzero
  obtain ⟨hwritten, rfl⟩ := hall hzero
  rw [encodeBody, checkedCount_eq hn, hwritten, append_nil]
  rfl

theorem decodeCapsConfirm_whole : decodeCapsConfirm.Whole (Restored capsConfirm) := by
  refine readCapabilitySet_took.whole ?_
  rintro capsSet _ ⟨hset, data, hdata, rfl, hwritten⟩
  refine expectEnd ?_
  refine fun _ => ⟨hset, rfl, fun hzero => ?_⟩
  rw [bodyReserved, if_neg (by decide), if_neg (by decide), if_neg (by decide),
    capsReserved_cons hset.version hdata, capsReserved, append_nil] at hzero
  have hcaps : data = capsData capsSet := by
    apply hwritten
    by_cases h10 : capsSet.version = v10_1
    · exact Or.inr (by rwa [if_pos h10] at hzero)
    · exact Or.inl h10
  rw [encodeBody, writeCapabilitySet_eq hset, hcaps, append_nil]

/-- `read` gives what is written as `body`. -/
def Restores (command : ℕ) (body : List UInt8) (read : Parse Pdu) : Prop :=
  ∀ pdu r', read ⟨body, headerSize⟩ = .ok (pdu, r') → Restored command pdu body

theorem Restores.of_whole {expected : ℕ} {read : Parse Pdu}
    (h : read.Whole (Restored expected)) (hc : command = expected) : Restores command body read := by
  subst hc
  exact fun pdu r' hr => h _ pdu r' hr

theorem Restores.ite {c : Prop} [Decidable c] {p q : Parse Pdu}
    (hp : c → Restores command body p) (hq : Restores command body q) : Restores command body (if c then p else q) := by
  by_cases hc : c
  · rw [if_pos hc]
    exact hp hc
  · rwa [if_neg hc]

/-- **A body that is decoded is the one that is written**, up to the bytes that nothing reads. -/
theorem bodies_restored (command : ℕ) (body : List UInt8) : Restores command body (decodeBody command) := by
  unfold decodeBody
  refine Restores.ite (Restores.of_whole decodeWireToSurface1_whole) ?_
  refine Restores.ite (Restores.of_whole decodeWireToSurface2_whole) ?_
  refine Restores.ite (Restores.of_whole decodeDeleteEncodingContext_whole) ?_
  refine Restores.ite (Restores.of_whole decodeSolidFill_whole) ?_
  refine Restores.ite (Restores.of_whole decodeSurfaceToSurface_whole) ?_
  refine Restores.ite (Restores.of_whole decodeSurfaceToCache_whole) ?_
  refine Restores.ite (Restores.of_whole decodeCacheToSurface_whole) ?_
  refine Restores.ite (Restores.of_whole decodeEvictCacheEntry_whole) ?_
  refine Restores.ite (Restores.of_whole decodeCreateSurface_whole) ?_
  refine Restores.ite (Restores.of_whole decodeDeleteSurface_whole) ?_
  refine Restores.ite (Restores.of_whole decodeStartFrame_whole) ?_
  refine Restores.ite (Restores.of_whole decodeEndFrame_whole) ?_
  refine Restores.ite (Restores.of_whole decodeFrameAcknowledge_whole) ?_
  refine Restores.ite (fun hc => ?_) ?_
  · subst hc
    exact fun pdu r' hr => decodeResetGraphics_restored rfl hr
  refine Restores.ite (Restores.of_whole decodeMapSurfaceToOutput_whole) ?_
  refine Restores.ite (Restores.of_whole decodeCacheImportOffer_whole) ?_
  refine Restores.ite (Restores.of_whole decodeCacheImportReply_whole) ?_
  refine Restores.ite (Restores.of_whole decodeCapsAdvertise_whole) ?_
  refine Restores.ite (Restores.of_whole decodeCapsConfirm_whole) ?_
  refine Restores.ite (Restores.of_whole decodeMapSurfaceToWindow_whole) ?_
  refine Restores.ite (Restores.of_whole decodeQoeFrameAcknowledge_whole) ?_
  refine Restores.ite (Restores.of_whole decodeMapSurfaceToScaledOutput_whole) ?_
  refine Restores.ite (Restores.of_whole decodeMapSurfaceToScaledWindow_whole) ?_
  exact fun _ _ h => by cases h

/-! ### The header -/

/-- A message: its command, its flags, its length and its body. -/
def messageBytes (command : ℕ) (flags body : List UInt8) : List UInt8 :=
  u16le command ++ (flags ++ (u32le (headerSize + body.length) ++ body))

variable {flags : List UInt8}

theorem messageBytes_length (hflags : flags.length = 2) :
    (messageBytes command flags body).length = headerSize + body.length := by
  simp only [messageBytes, length_append, u16le_length, u32le_length, headerSize]
  omega

theorem cmdId_lt (pdu : Pdu) : cmdId pdu < 2 ^ 16 := by
  cases pdu <;> (simp only [cmdId]; decide)

/-- The header is read for what it says, and the body behind it. -/
theorem decodePdu_message (hc : command < 2 ^ 16) (hflags : flags.length = 2)
    (hlength : headerSize + body.length < 2 ^ 32) :
    decodePdu (messageBytes command flags body) = (decodeBody command ⟨body, headerSize⟩).map Prod.fst := by
  have hcommand := u16le_readsBack hc (flags ++ (u32le (headerSize + body.length) ++ body)) 0
  have hskip := Reader.skip_append flags (u32le (headerSize + body.length) ++ body) 2 hflags
  have hsize := u32le_readsBack hlength body 4
  unfold decodePdu
  rw [messageBytes_length hflags, messageBytes, Parse.bind_ok hcommand]
  simp only [u16le_length]
  rw [Parse.bind_ok hskip, Parse.bind_ok (x := Reader.at_) rfl, Parse.bind_ok hsize, if_neg (not_not.mpr rfl)]
  rfl

/-- Whatever is accepted is a header and a body that is accepted behind it. -/
theorem message_of_decodePdu {data : List UInt8} (h : decodePdu data = .ok pdu) :
    ∃ command flags body r', data = messageBytes command flags body ∧ command < 2 ^ 16 ∧ flags.length = 2 ∧
      headerSize + body.length < 2 ^ 32 ∧ decodeBody command ⟨body, headerSize⟩ = .ok (pdu, r') := by
  have hform : ∃ command flags body, data = messageBytes command flags body ∧ command < 2 ^ 16 ∧ flags.length = 2 ∧
      headerSize + body.length < 2 ^ 32 := by
    unfold decodePdu at h
    rcases hr : ((do
      let command ← Reader.u16le
      Reader.skip 2
      let start ← Reader.at_
      let length ← Reader.u32le
      if length ≠ data.length then Parse.fail .invalidLength "pduLength does not match the PDU size" start
      else decodeBody command : Parse Pdu) ⟨data, 0⟩) with e | p
    · rw [hr] at h
      cases h
    obtain ⟨command, r₁, h1, hflags⟩ := Parse.of_bind_ok hr
    obtain ⟨u, r₂, h2, hstart⟩ := Parse.of_bind_ok hflags
    obtain ⟨start, r₃, h3, hsize⟩ := Parse.of_bind_ok hstart
    obtain ⟨length, r₄, h4, hchecked⟩ := Parse.of_bind_ok hsize
    cases h3
    have hlength : length = data.length := by
      by_contra hne
      rw [if_pos hne] at hchecked
      cases hchecked
    obtain ⟨_, hcommand, hc, rfl⟩ := u16le_inverse.took _ _ _ h1
    obtain ⟨flags, hrest, hflags⟩ := skip_took 2 _ _ _ h2
    obtain ⟨_, hsize, hl, rfl⟩ := u32le_inverse.took _ _ _ h4
    have hdata : data = u16le command ++ (flags ++ (u32le length ++ r₄.rest)) := by
      rw [← hsize, ← hrest]
      exact hcommand
    have hsum : length = headerSize + r₄.rest.length := by
      rw [hlength, congrArg List.length hdata]
      simp only [length_append, u16le_length, u32le_length, headerSize]
      omega
    exact ⟨command, flags, r₄.rest, by rw [messageBytes, ← hsum]; exact hdata, hc, hflags, hsum ▸ hl⟩
  obtain ⟨command, flags, body, rfl, hc, hflags, hlength⟩ := hform
  rw [decodePdu_message hc hflags hlength] at h
  rcases hbody : decodeBody command ⟨body, headerSize⟩ with e | ⟨p, r'⟩
  · rw [hbody] at h
    cases h
  · rw [hbody] at h
    cases h
    exact ⟨command, flags, body, r', rfl, hc, hflags, hlength, hbody⟩

theorem encode_eq (hbody : encodeBody pdu = some body) (hlength : headerSize + body.length < 2 ^ 32) :
    encode pdu = some (messageBytes (cmdId pdu) (u16le 0) body) := by
  unfold encode
  rw [hbody, Option.bind_eq_bind, Option.bind_some, checkedLength_eq hlength]
  simp [messageBytes]

theorem framePdu_message {maxSize : ℕ} (rest : List UInt8) (hflags : flags.length = 2)
    (hlength : headerSize + body.length < 2 ^ 32) (hmax : headerSize + body.length ≤ maxSize) :
    framePdu (messageBytes command flags body ++ rest) maxSize = .ok (some (headerSize + body.length)) := by
  have hstream : (messageBytes command flags body).length = headerSize + body.length := messageBytes_length hflags
  have hskip := Reader.skip_append (u16le command ++ flags)
    (u32le (headerSize + body.length) ++ (body ++ rest)) 0 (n := 4) (by simp [hflags])
  have hsize := u32le_readsBack hlength (body ++ rest) 4
  have hbytes : messageBytes command flags body ++ rest =
      u16le command ++ flags ++ (u32le (headerSize + body.length) ++ (body ++ rest)) := by
    simp only [messageBytes, append_assoc]
  unfold framePdu
  rw [if_neg (by rw [length_append]; omega), length_append, hbytes, Parse.bind_ok hskip,
    Parse.bind_ok (x := Reader.at_) rfl, Parse.bind_ok hsize, if_neg (by omega), if_neg (by omega), if_neg (by omega)]
  rfl

/-- **Graphics messages survive the wire**: a valid message is decoded from its
own encoding and framed as just that, and whatever is decoded is a valid
message that is encoded as the bytes it came from, when the bytes that nothing
reads are zero. -/
theorem pdus_roundTrip :
    (∀ pdu : Pdu, pdu.Valid → ∃ bytes, encode pdu = some bytes ∧ decodePdu bytes = .ok pdu ∧
      ∀ rest maxSize, bytes.length ≤ maxSize → framePdu (bytes ++ rest) maxSize = .ok (some bytes.length)) ∧
    (∀ (bytes : List UInt8) (pdu : Pdu), decodePdu bytes = .ok pdu →
      pdu.Valid ∧ (AllZero (reservedBytes bytes) → encode pdu = some bytes)) ∧
    ∀ version flags, version < 2 ^ 32 → flags < 2 ^ 32 → (makeCapabilitySet version flags).Normal := by
  refine ⟨fun pdu hvalid => ?_, fun bytes pdu h => ?_, fun _ _ => makeCapabilitySet_normal⟩
  · obtain ⟨body, hbody, hlength, r, hread⟩ := comes hvalid
    refine ⟨_, encode_eq hbody hlength, ?_, fun rest maxSize hmax => ?_⟩
    · rw [decodePdu_message (cmdId_lt pdu) rfl hlength, hread]
      rfl
    · rw [messageBytes_length rfl] at hmax ⊢
      exact framePdu_message rest rfl hlength hmax
  · obtain ⟨command, flags, body, r', rfl, hc, hflags, hlength, hbody⟩ := message_of_decodePdu h
    obtain ⟨hvalid, rfl, hwritten⟩ := bodies_restored command body pdu r' hbody hlength
    refine ⟨hvalid, fun hzero => ?_⟩
    have hflagsZero : AllZero flags := by
      refine fun x hx => hzero x (mem_append_left _ ?_)
      rwa [messageBytes, drop_left' (by simp), take_left' hflags]
    have hbodyZero : AllZero (bodyReserved (cmdId pdu) body) := by
      refine fun x hx => hzero x (mem_append_right _ ?_)
      have hcommand : leValue ((messageBytes (cmdId pdu) flags body).take 2) = cmdId pdu := by
        rw [messageBytes, take_left' (by simp)]
        exact (leValue_leBytes 2 _).trans (Nat.mod_eq_of_lt hc)
      have hdrop : (messageBytes (cmdId pdu) flags body).drop headerSize = body := by
        simp only [messageBytes, ← append_assoc]
        exact drop_left' (by simp [hflags, headerSize])
      rwa [hcommand, hdrop]
    rw [encode_eq (hwritten hbodyZero) hlength, ← eq_reserved hflags hflagsZero]

/-- A capability set of every kind: flags, the reserved sixteen bytes, and a version to come. -/
def mixedAdvertise : Pdu :=
  .capsAdvertise [⟨v10_7, CapsFlag.avcDisabled, []⟩, ⟨v10_1, 0, []⟩,
    ⟨0x000B0000, 0x00000101, [1, 1, 0, 0, 9]⟩]

theorem pdus_roundTrip_mixed : ∃ bytes, encode mixedAdvertise = some bytes ∧ bytes.length = 59 ∧
    decodePdu bytes = .ok mixedAdvertise := by
  have hvalid : mixedAdvertise.Valid := by
    refine ⟨by decide, by decide, ?_, by decide⟩
    simp only [forall_mem_cons]
    refine ⟨⟨by decide, by decide, by decide, by decide⟩, ⟨by decide, by decide, by decide, by decide⟩,
      ⟨by decide, by decide, by decide, by decide⟩, by simp⟩
  obtain ⟨bytes, hb, hdecode, -⟩ := pdus_roundTrip.1 mixedAdvertise hvalid
  have hlength : (encode mixedAdvertise).map List.length = some 59 := by decide
  rw [hb] at hlength
  exact ⟨bytes, hb, Option.some.inj hlength, hdecode⟩

end Rdpgfx
end Channels
end Farland
