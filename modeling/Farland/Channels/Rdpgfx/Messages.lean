/-
# RDPGFX messages that decode

What `decode_pdu` checks of each message, and that every message which passes
is encoded in at most a 32-bit length and decoded again. A body is decoded
behind a header of eight bytes; the reset of the graphics looks at that offset.

Key theorem: `comes`.
-/
import Farland.Channels.Rdpgfx.Fields

namespace Farland
namespace Channels
namespace Rdpgfx

open Parse List Writer Pdu

/-- What `decode_pdu` checks. -/
def Pdu.Valid : Pdu → Prop
  | .wireToSurface1 surfaceId codecId pixelFormat destRect bitmapData =>
    surfaceId < 2 ^ 16 ∧ codecId < 2 ^ 16 ∧ validPixelFormat pixelFormat = true ∧ destRect.Valid ∧
      headerSize + 17 + bitmapData.length < 2 ^ 32
  | .wireToSurface2 surfaceId codecId codecContextId pixelFormat bitmapData =>
    surfaceId < 2 ^ 16 ∧ codecId < 2 ^ 16 ∧ codecContextId < 2 ^ 32 ∧ validPixelFormat pixelFormat = true ∧
      headerSize + 13 + bitmapData.length < 2 ^ 32
  | .deleteEncodingContext surfaceId codecContextId => surfaceId < 2 ^ 16 ∧ codecContextId < 2 ^ 32
  | .solidFill surfaceId fillPixel fillRects =>
    surfaceId < 2 ^ 16 ∧ fillPixel.Valid ∧ fillRects.length < 2 ^ 16 ∧ ∀ r ∈ fillRects, r.Valid
  | .surfaceToSurface surfaceIdSrc surfaceIdDest rectSrc destPts =>
    surfaceIdSrc < 2 ^ 16 ∧ surfaceIdDest < 2 ^ 16 ∧ rectSrc.Valid ∧ destPts.length < 2 ^ 16 ∧ ∀ p ∈ destPts, p.Valid
  | .surfaceToCache surfaceId cacheKey cacheSlot rectSrc =>
    surfaceId < 2 ^ 16 ∧ cacheKey < 2 ^ 64 ∧ ValidSlot cacheSlot ∧ rectSrc.Valid
  | .cacheToSurface cacheSlot surfaceId destPts =>
    ValidSlot cacheSlot ∧ surfaceId < 2 ^ 16 ∧ destPts.length < 2 ^ 16 ∧ ∀ p ∈ destPts, p.Valid
  | .evictCacheEntry cacheSlot => ValidSlot cacheSlot
  | .createSurface surfaceId width height pixelFormat =>
    surfaceId < 2 ^ 16 ∧ width < 2 ^ 16 ∧ height < 2 ^ 16 ∧ ¬ (width = 0 ∨ height = 0) ∧
      validPixelFormat pixelFormat = true
  | .deleteSurface surfaceId => surfaceId < 2 ^ 16
  | .startFrame timestamp frameId => timestamp < 2 ^ 32 ∧ frameId < 2 ^ 32
  | .endFrame frameId => frameId < 2 ^ 32
  | .frameAcknowledge queueDepth frameId totalFramesDecoded =>
    queueDepth < 2 ^ 32 ∧ frameId < 2 ^ 32 ∧ totalFramesDecoded < 2 ^ 32
  | .resetGraphics width height monitors =>
    ¬ (width = 0 ∨ height = 0 ∨ width > maxOutputSize ∨ height > maxOutputSize) ∧
      monitors.length ≤ maxMonitors ∧ ∀ m ∈ monitors, m.Valid
  | .mapSurfaceToOutput surfaceId outputOriginX outputOriginY =>
    surfaceId < 2 ^ 16 ∧ outputOriginX < 2 ^ 32 ∧ outputOriginY < 2 ^ 32
  | .cacheImportOffer entries => entries.length ≤ maxCacheImportEntries ∧ ∀ e ∈ entries, e.Valid
  | .cacheImportReply cacheSlots => cacheSlots.length ≤ maxCacheImportEntries ∧ ∀ s ∈ cacheSlots, ValidSlot s
  | .capsAdvertise capsSets =>
    capsSets.length ≠ 0 ∧ capsSets.length ≤ maxCapsSets ∧ (∀ s ∈ capsSets, s.Normal) ∧
      (capsSets.map CapabilitySet.version).Nodup
  | .capsConfirm capsSet => capsSet.Normal
  | .mapSurfaceToWindow surfaceId windowId mappedWidth mappedHeight =>
    surfaceId < 2 ^ 16 ∧ windowId < 2 ^ 64 ∧ mappedWidth < 2 ^ 32 ∧ mappedHeight < 2 ^ 32
  | .qoeFrameAcknowledge frameId timestamp timeDiffSe timeDiffEdr =>
    frameId < 2 ^ 32 ∧ timestamp < 2 ^ 32 ∧ timeDiffSe < 2 ^ 16 ∧ timeDiffEdr < 2 ^ 16
  | .mapSurfaceToScaledOutput surfaceId outputOriginX outputOriginY targetWidth targetHeight =>
    surfaceId < 2 ^ 16 ∧ outputOriginX < 2 ^ 32 ∧ outputOriginY < 2 ^ 32 ∧ targetWidth < 2 ^ 32 ∧ targetHeight < 2 ^ 32
  | .mapSurfaceToScaledWindow surfaceId windowId mappedWidth mappedHeight targetWidth targetHeight =>
    surfaceId < 2 ^ 16 ∧ windowId < 2 ^ 64 ∧ mappedWidth < 2 ^ 32 ∧ mappedHeight < 2 ^ 32 ∧ targetWidth < 2 ^ 32 ∧
      targetHeight < 2 ^ 32

/-- The body of `pdu` fits a message, and `read` gives `pdu` behind its header. -/
def Comes (pdu : Pdu) (read : Parse Pdu) : Prop :=
  ∃ body, encodeBody pdu = some body ∧ headerSize + body.length < 2 ^ 32 ∧
    ∃ r, read ⟨body, headerSize⟩ = .ok (pdu, r)

theorem comes_of_reads {pdu : Pdu} {read : Parse Pdu} {body : List UInt8} (hbody : encodeBody pdu = some body)
    (hlength : headerSize + body.length < 2 ^ 32) (h : read.Reads body pdu) : Comes pdu read :=
  ⟨body, hbody, hlength, h headerSize⟩

/-- The end of a message. -/
theorem ends {what : String} (pdu : Pdu) : (Reader.expectEnd what >>= fun _ => (pure pdu : Parse Pdu)).Reads [] pdu :=
  expectEnd_reads what (ReadsBack.pure pdu).reads

theorem checkedCount_eq {count : ℕ} (h : count < 2 ^ 16) : checkedCount count = some count := if_pos (by omega)

theorem checkedLength_eq {length : ℕ} (h : length < 2 ^ 32) : checkedLength length = some length := if_pos (by omega)

theorem writeBitmapData_eq {data : List UInt8} (h : data.length < 2 ^ 32) :
    writeBitmapData data = some (u32le data.length ++ data) := by
  unfold writeBitmapData
  rw [checkedLength_eq h]
  rfl

/-- A reserved field, written as zero. -/
theorem reserved_readsBack : (Reader.skip 2).ReadsBack (u16le 0) () :=
  fun rest o => Reader.skip_append (u16le 0) rest o rfl

/-- Padding up to the end of a message. -/
theorem padding_reads {xs : List UInt8} (pdu : Pdu) :
    ((fun r => Reader.skip r.remaining r : Parse Unit) >>= fun _ => (pure pdu : Parse Pdu)).Reads xs pdu := by
  intro o
  have hskip := Reader.skip_append xs [] o rfl
  rw [append_nil] at hskip
  exact ⟨_, by rw [Parse.bind_ok (x := fun r => Reader.skip r.remaining r) hskip]; rfl⟩

/-! ### One message after the other -/

section

variable {surfaceId codecId codecContextId pixelFormat cacheSlot cacheKey frameId timestamp width height : ℕ}

theorem wireToSurface1_comes {destRect : Rect16} {bitmapData : List UInt8}
    (h : (wireToSurface1 surfaceId codecId pixelFormat destRect bitmapData).Valid) :
    Comes (.wireToSurface1 surfaceId codecId pixelFormat destRect bitmapData) decodeWireToSurface1 := by
  obtain ⟨hs, hc, hp, hr, hl⟩ := h
  have hdata : bitmapData.length < 2 ^ 32 := by omega
  refine comes_of_reads (by rw [encodeBody, writeBitmapData_eq hdata]; rfl) ?_ ?_
  · simp only [length_append, u16le_length, u8_length, writeRect16_length, u32le_length, rect16Size]
    omega
  · apply (u16le_readsBack hs).then
    apply (u16le_readsBack hc).then
    apply (readPixelFormat_inverse.readsBack hp).then
    apply (readRect16_inverse.readsBack hr).then
    apply (readBitmapData_inverse.readsBack hdata).last
    exact ends _

theorem wireToSurface2_comes {bitmapData : List UInt8}
    (h : (wireToSurface2 surfaceId codecId codecContextId pixelFormat bitmapData).Valid) :
    Comes (.wireToSurface2 surfaceId codecId codecContextId pixelFormat bitmapData) decodeWireToSurface2 := by
  obtain ⟨hs, hc, hx, hp, hl⟩ := h
  have hdata : bitmapData.length < 2 ^ 32 := by omega
  refine comes_of_reads (by rw [encodeBody, writeBitmapData_eq hdata]; rfl) ?_ ?_
  · simp only [length_append, u16le_length, u8_length, u32le_length]
    omega
  · apply (u16le_readsBack hs).then
    apply (u16le_readsBack hc).then
    apply (u32le_readsBack hx).then
    apply (readPixelFormat_inverse.readsBack hp).then
    apply (readBitmapData_inverse.readsBack hdata).last
    exact ends _

theorem deleteEncodingContext_comes (h : (deleteEncodingContext surfaceId codecContextId).Valid) :
    Comes (.deleteEncodingContext surfaceId codecContextId) decodeDeleteEncodingContext := by
  obtain ⟨hs, hc⟩ := h
  refine comes_of_reads rfl (by simp [headerSize]) ?_
  apply (u16le_readsBack hs).then
  exact (u32le_readsBack hc).last (ends _)

theorem solidFill_comes {fillPixel : Color32} {fillRects : List Rect16}
    (h : (solidFill surfaceId fillPixel fillRects).Valid) :
    Comes (.solidFill surfaceId fillPixel fillRects) decodeSolidFill := by
  obtain ⟨hs, hp, hn, hrects⟩ := h
  refine comes_of_reads (by rw [encodeBody, checkedCount_eq hn]; rfl) ?_ ?_
  · simp only [length_append, u16le_length, writeColor32_length, flatMap_length writeRect16_length,
      rect16Size, headerSize]
    omega
  · apply (u16le_readsBack hs).then
    apply (readColor32_inverse.readsBack hp).then
    apply (u16le_readsBack hn).then
    exact (sizedArray_readsBack readRect16_inverse writeRect16_length (by decide) hrects).last (ends _)

theorem surfaceToSurface_comes {surfaceIdDest : ℕ} {rectSrc : Rect16} {destPts : List Point16}
    (h : (surfaceToSurface surfaceId surfaceIdDest rectSrc destPts).Valid) :
    Comes (.surfaceToSurface surfaceId surfaceIdDest rectSrc destPts) decodeSurfaceToSurface := by
  obtain ⟨hs, hd, hr, hn, hpts⟩ := h
  refine comes_of_reads (by rw [encodeBody, checkedCount_eq hn]; rfl) ?_ ?_
  · simp only [length_append, u16le_length, writeRect16_length, flatMap_length writePoint16_length,
      rect16Size, point16Size, headerSize]
    omega
  · apply (u16le_readsBack hs).then
    apply (u16le_readsBack hd).then
    apply (readRect16_inverse.readsBack hr).then
    apply (u16le_readsBack hn).then
    exact (sizedArray_readsBack readPoint16_inverse writePoint16_length (by decide) hpts).last (ends _)

theorem surfaceToCache_comes {rectSrc : Rect16} (h : (surfaceToCache surfaceId cacheKey cacheSlot rectSrc).Valid) :
    Comes (.surfaceToCache surfaceId cacheKey cacheSlot rectSrc) decodeSurfaceToCache := by
  obtain ⟨hs, hk, hc, hr⟩ := h
  refine comes_of_reads rfl (by simp [headerSize, u64le_length, writeRect16_length, rect16Size]) ?_
  apply (u16le_readsBack hs).then
  apply (u64le_readsBack hk).then
  apply (readCacheSlot_inverse.readsBack hc).then
  exact (readRect16_inverse.readsBack hr).last (ends _)

theorem cacheToSurface_comes {destPts : List Point16} (h : (cacheToSurface cacheSlot surfaceId destPts).Valid) :
    Comes (.cacheToSurface cacheSlot surfaceId destPts) decodeCacheToSurface := by
  obtain ⟨hc, hs, hn, hpts⟩ := h
  refine comes_of_reads (by rw [encodeBody, checkedCount_eq hn]; rfl) ?_ ?_
  · simp only [length_append, u16le_length, flatMap_length writePoint16_length, point16Size, headerSize]
    omega
  · apply (readCacheSlot_inverse.readsBack hc).then
    apply (u16le_readsBack hs).then
    apply (u16le_readsBack hn).then
    exact (sizedArray_readsBack readPoint16_inverse writePoint16_length (by decide) hpts).last (ends _)

theorem evictCacheEntry_comes (h : (evictCacheEntry cacheSlot).Valid) :
    Comes (.evictCacheEntry cacheSlot) decodeEvictCacheEntry :=
  comes_of_reads rfl (by simp [headerSize]) ((readCacheSlot_inverse.readsBack h).last (ends _))

theorem createSurface_comes (h : (createSurface surfaceId width height pixelFormat).Valid) :
    Comes (.createSurface surfaceId width height pixelFormat) decodeCreateSurface := by
  obtain ⟨hs, hw, hh, hfilled, hp⟩ := h
  refine comes_of_reads rfl (by simp [headerSize]) ?_
  apply (u16le_readsBack hs).then
  apply Reads.at_
  intro start
  apply (u16le_readsBack hw).then
  apply (u16le_readsBack hh).then
  apply Reads.unless hfilled
  exact (readPixelFormat_inverse.readsBack hp).last (ends _)

theorem deleteSurface_comes (h : (deleteSurface surfaceId).Valid) :
    Comes (.deleteSurface surfaceId) decodeDeleteSurface :=
  comes_of_reads rfl (by simp [headerSize]) ((u16le_readsBack h).last (ends _))

theorem startFrame_comes (h : (startFrame timestamp frameId).Valid) :
    Comes (.startFrame timestamp frameId) decodeStartFrame := by
  refine comes_of_reads rfl (by simp [headerSize]) ?_
  apply (u32le_readsBack h.1).then
  exact (u32le_readsBack h.2).last (ends _)

theorem endFrame_comes (h : (endFrame frameId).Valid) : Comes (.endFrame frameId) decodeEndFrame :=
  comes_of_reads rfl (by simp [headerSize]) ((u32le_readsBack h).last (ends _))

theorem frameAcknowledge_comes {queueDepth totalFramesDecoded : ℕ}
    (h : (frameAcknowledge queueDepth frameId totalFramesDecoded).Valid) :
    Comes (.frameAcknowledge queueDepth frameId totalFramesDecoded) decodeFrameAcknowledge := by
  obtain ⟨hq, hf, ht⟩ := h
  refine comes_of_reads rfl (by simp [headerSize]) ?_
  apply (u32le_readsBack hq).then
  apply (u32le_readsBack hf).then
  exact (u32le_readsBack ht).last (ends _)

theorem mapSurfaceToOutput_comes {outputOriginX outputOriginY : ℕ}
    (h : (mapSurfaceToOutput surfaceId outputOriginX outputOriginY).Valid) :
    Comes (.mapSurfaceToOutput surfaceId outputOriginX outputOriginY) decodeMapSurfaceToOutput := by
  obtain ⟨hs, hx, hy⟩ := h
  refine comes_of_reads rfl (by simp [headerSize]) ?_
  apply (u16le_readsBack hs).then
  apply reserved_readsBack.then
  apply (u32le_readsBack hx).then
  exact (u32le_readsBack hy).last (ends _)

theorem cacheImportOffer_comes {entries : List CacheEntryMetadata} (h : (cacheImportOffer entries).Valid) :
    Comes (.cacheImportOffer entries) decodeCacheImportOffer := by
  obtain ⟨hn, hentries⟩ := h
  have hcount : entries.length < 2 ^ 16 := lt_of_le_of_lt hn (by decide)
  refine comes_of_reads (by rw [encodeBody, if_pos hn, checkedCount_eq hcount]; rfl) ?_ ?_
  · simp only [length_append, u16le_length, flatMap_length writeCacheEntry_length, cacheEntrySize, headerSize]
    omega
  · apply Reads.at_
    intro start
    apply (u16le_readsBack hcount).then
    apply Reads.unless (not_lt.mpr hn)
    exact (sizedArray_readsBack readCacheEntry_inverse writeCacheEntry_length (by decide) hentries).last (ends _)

theorem cacheImportReply_comes {cacheSlots : List ℕ} (h : (cacheImportReply cacheSlots).Valid) :
    Comes (.cacheImportReply cacheSlots) decodeCacheImportReply := by
  obtain ⟨hn, hslots⟩ := h
  have hcount : cacheSlots.length < 2 ^ 16 := lt_of_le_of_lt hn (by decide)
  refine comes_of_reads (by rw [encodeBody, if_pos hn, checkedCount_eq hcount]; rfl) ?_ ?_
  · simp only [length_append, u16le_length, flatMap_length writeSlot_length, cacheSlotSize, headerSize]
    omega
  · apply Reads.at_
    intro start
    apply (u16le_readsBack hcount).then
    apply Reads.unless (not_lt.mpr hn)
    exact (sizedArray_readsBack readCacheSlot_inverse writeSlot_length (by decide) hslots).last (ends _)

theorem mapSurfaceToWindow_comes {windowId mappedWidth mappedHeight : ℕ}
    (h : (mapSurfaceToWindow surfaceId windowId mappedWidth mappedHeight).Valid) :
    Comes (.mapSurfaceToWindow surfaceId windowId mappedWidth mappedHeight) decodeMapSurfaceToWindow := by
  obtain ⟨hs, hi, hw, hh⟩ := h
  refine comes_of_reads rfl (by simp [headerSize, u64le_length]) ?_
  apply (u16le_readsBack hs).then
  apply (u64le_readsBack hi).then
  apply (u32le_readsBack hw).then
  exact (u32le_readsBack hh).last (ends _)

theorem qoeFrameAcknowledge_comes {timeDiffSe timeDiffEdr : ℕ}
    (h : (qoeFrameAcknowledge frameId timestamp timeDiffSe timeDiffEdr).Valid) :
    Comes (.qoeFrameAcknowledge frameId timestamp timeDiffSe timeDiffEdr) decodeQoeFrameAcknowledge := by
  obtain ⟨hf, ht, hs, he⟩ := h
  refine comes_of_reads rfl (by simp [headerSize]) ?_
  apply (u32le_readsBack hf).then
  apply (u32le_readsBack ht).then
  apply (u16le_readsBack hs).then
  exact (u16le_readsBack he).last (ends _)

theorem mapSurfaceToScaledOutput_comes {outputOriginX outputOriginY targetWidth targetHeight : ℕ}
    (h : (mapSurfaceToScaledOutput surfaceId outputOriginX outputOriginY targetWidth targetHeight).Valid) :
    Comes (.mapSurfaceToScaledOutput surfaceId outputOriginX outputOriginY targetWidth targetHeight)
      decodeMapSurfaceToScaledOutput := by
  obtain ⟨hs, hx, hy, hw, hh⟩ := h
  refine comes_of_reads rfl (by simp [headerSize]) ?_
  apply (u16le_readsBack hs).then
  apply reserved_readsBack.then
  apply (u32le_readsBack hx).then
  apply (u32le_readsBack hy).then
  apply (u32le_readsBack hw).then
  exact (u32le_readsBack hh).last (ends _)

theorem mapSurfaceToScaledWindow_comes {windowId mappedWidth mappedHeight targetWidth targetHeight : ℕ}
    (h : (mapSurfaceToScaledWindow surfaceId windowId mappedWidth mappedHeight targetWidth targetHeight).Valid) :
    Comes (.mapSurfaceToScaledWindow surfaceId windowId mappedWidth mappedHeight targetWidth targetHeight)
      decodeMapSurfaceToScaledWindow := by
  obtain ⟨hs, hi, hw, hh, htw, hth⟩ := h
  refine comes_of_reads rfl (by simp [headerSize, u64le_length]) ?_
  apply (u16le_readsBack hs).then
  apply (u64le_readsBack hi).then
  apply (u32le_readsBack hw).then
  apply (u32le_readsBack hh).then
  apply (u32le_readsBack htw).then
  exact (u32le_readsBack hth).last (ends _)

/-- 340 bytes with the header, of which the ones behind the monitors are padding. -/
theorem resetGraphics_comes {monitors : List MonitorDef} (h : (resetGraphics width height monitors).Valid) :
    Comes (.resetGraphics width height monitors) decodeResetGraphics := by
  obtain ⟨hsize, hn, hmonitors⟩ := h
  have hw : width < 2 ^ 32 := lt_of_le_of_lt (by omega : width ≤ maxOutputSize) (by decide)
  have hh : height < 2 ^ 32 := lt_of_le_of_lt (by omega : height ≤ maxOutputSize) (by decide)
  have hcount : monitors.length < 2 ^ 32 := lt_of_le_of_lt hn (by decide)
  have hmax : monitors.length ≤ 16 := hn
  refine ⟨_, by rw [encodeBody, if_pos hn]; rfl, ?_, ?_⟩
  · simp only [length_append, u32le_length, flatMap_length writeMonitorDef_length, zeros_length,
      monitorDefSize, resetGraphicsPduSize, headerSize]
    omega
  · unfold decodeResetGraphics
    rw [if_neg]
    · refine Reads.at_ (fun start => ?_) _
      apply (u32le_readsBack hw).then
      apply (u32le_readsBack hh).then
      apply Reads.unless hsize
      apply Reads.at_
      intro countAt
      apply (u32le_readsBack hcount).then
      apply Reads.unless (not_lt.mpr hn)
      apply (sizedArray_readsBack readMonitorDef_inverse writeMonitorDef_length (by decide) hmonitors).then
      exact padding_reads _
    · simp only [Reader.remaining, length_append, u32le_length, flatMap_length writeMonitorDef_length,
        zeros_length, monitorDefSize, resetGraphicsPduSize, headerSize, resetGraphicsFixedSize]
      omega

end

/-! ### Capability sets -/

theorem capsSetBytes_length (version : ℕ) (data : List UInt8) :
    (capsSetBytes version data).length = capsSetHeaderSize + data.length := by
  simp only [capsSetBytes, length_append, u32le_length, capsSetHeaderSize]
  omega

/-- The sets of a list, one behind the other. -/
def capsSetsBytes (sets : List CapabilitySet) : List UInt8 :=
  sets.flatMap fun set => capsSetBytes set.version (capsData set)

theorem mapM_writeCapabilitySet {sets : List CapabilitySet} (h : ∀ s ∈ sets, s.Normal) :
    sets.mapM writeCapabilitySet = some (sets.map fun set => capsSetBytes set.version (capsData set)) := by
  induction sets with
  | nil => rfl
  | cons set sets ih =>
    rw [mapM_cons, writeCapabilitySet_eq (h set mem_cons_self), ih fun s hs => h s (mem_cons_of_mem _ hs)]
    rfl

theorem capsSetsBytes_length {sets : List CapabilitySet} (h : ∀ s ∈ sets, s.Normal) :
    capsSetHeaderSize * sets.length ≤ (capsSetsBytes sets).length ∧
      (capsSetsBytes sets).length ≤ (capsSetHeaderSize + maxUnknownCapsDataLength) * sets.length := by
  induction sets with
  | nil => exact ⟨le_rfl, le_rfl⟩
  | cons set sets ih =>
    obtain ⟨hlo, hhi⟩ := ih fun s hs => h s (mem_cons_of_mem _ hs)
    have hdata := capsData_length_le (h set mem_cons_self)
    unfold capsSetsBytes at hlo hhi ⊢
    rw [flatMap_cons, length_append, capsSetBytes_length, length_cons, Nat.mul_succ, Nat.mul_succ]
    omega

theorem capsAdvertise_comes {capsSets : List CapabilitySet} (h : (capsAdvertise capsSets).Valid) :
    Comes (.capsAdvertise capsSets) decodeCapsAdvertise := by
  obtain ⟨hpos, hn, hsets, hdistinct⟩ := h
  have hcount : capsSets.length < 2 ^ 16 := lt_of_le_of_lt hn (by decide)
  obtain ⟨hlo, hhi⟩ := capsSetsBytes_length hsets
  have hbody : encodeBody (.capsAdvertise capsSets) = some (u16le capsSets.length ++ capsSetsBytes capsSets) := by
    rw [encodeBody, checkedCount_eq hcount, mapM_writeCapabilitySet hsets]
    rfl
  refine comes_of_reads hbody ?_ ?_
  · simp only [length_append, u16le_length, headerSize, capsSetHeaderSize, maxUnknownCapsDataLength] at hhi ⊢
    omega
  · apply Reads.at_
    intro start
    apply (u16le_readsBack hcount).then
    apply Reads.unless hpos
    apply Reads.unless (not_lt.mpr hn)
    have hread : (Reader.readMany readCapabilitySet capsSets.length).ReadsBack (capsSetsBytes capsSets) capsSets :=
      readMany_readsBack capsSets fun s hs => readCapabilitySet_readsBack (hsets s hs)
    apply (readArray_readsBack hlo (by decide) hread).last
    apply Reads.unless (not_not.mpr hdistinct)
    exact ends _

theorem capsConfirm_comes {capsSet : CapabilitySet} (h : (capsConfirm capsSet).Valid) :
    Comes (.capsConfirm capsSet) decodeCapsConfirm := by
  have hdata := capsData_length_le h
  refine comes_of_reads (writeCapabilitySet_eq h) ?_ ?_
  · simp only [capsSetBytes_length, headerSize, capsSetHeaderSize, maxUnknownCapsDataLength] at hdata ⊢
    omega
  · exact (readCapabilitySet_readsBack h).last (ends _)

/-- **Every valid message** fits a length of 32 bits and is read back. -/
theorem comes {pdu : Pdu} (h : pdu.Valid) : Comes pdu (decodeBody (cmdId pdu)) := by
  cases pdu with
  | wireToSurface1 => exact wireToSurface1_comes h
  | wireToSurface2 => exact wireToSurface2_comes h
  | deleteEncodingContext => exact deleteEncodingContext_comes h
  | solidFill => exact solidFill_comes h
  | surfaceToSurface => exact surfaceToSurface_comes h
  | surfaceToCache => exact surfaceToCache_comes h
  | cacheToSurface => exact cacheToSurface_comes h
  | evictCacheEntry => exact evictCacheEntry_comes h
  | createSurface => exact createSurface_comes h
  | deleteSurface => exact deleteSurface_comes h
  | startFrame => exact startFrame_comes h
  | endFrame => exact endFrame_comes h
  | frameAcknowledge => exact frameAcknowledge_comes h
  | resetGraphics => exact resetGraphics_comes h
  | mapSurfaceToOutput => exact mapSurfaceToOutput_comes h
  | cacheImportOffer => exact cacheImportOffer_comes h
  | cacheImportReply => exact cacheImportReply_comes h
  | capsAdvertise => exact capsAdvertise_comes h
  | capsConfirm => exact capsConfirm_comes h
  | mapSurfaceToWindow => exact mapSurfaceToWindow_comes h
  | qoeFrameAcknowledge => exact qoeFrameAcknowledge_comes h
  | mapSurfaceToScaledOutput => exact mapSurfaceToScaledOutput_comes h
  | mapSurfaceToScaledWindow => exact mapSurfaceToScaledWindow_comes h

end Rdpgfx
end Channels
end Farland
