/-
# Dynamic channel PDUs, both ways

The encoders of all PDUs of both sides (`channels/drdynvc.cpp`), and that the
decoders undo them. A version 1 Capabilities Request has no priority charges
on the wire: they come back as zero (`CapsRequest.onWire`).

Key theorems: `decodeCommon_reads`, `decode_encodeClient`,
`decode_encodeServer`.
-/
import Farland.Base.ReadBack
import Farland.Channels.Drdynvc.Pdu

namespace Farland
namespace Channels
namespace Drdynvc

open Reader Farland.Parse List Cmd

/-! ### The other encoders -/

def encodeDataFirstCompressed (pdu : DataFirst) : List UInt8 :=
  writeIdPdu dataFirstCompressed (sizeCode pdu.length) pdu.channelId ++ writeVar pdu.length ++ pdu.data

def encodeDataCompressed (pdu : Data) : List UInt8 := writeIdPdu dataCompressed 0 pdu.channelId ++ pdu.data

def writeSoftSyncChannelList (list : SoftSyncChannelList) : List UInt8 :=
  Writer.u32le list.tunnelType ++ (Writer.u16le list.channelIds.length ++ list.channelIds.flatMap Writer.u32le)

/-- Length, Flags, NumberOfTunnels and the channel lists. -/
def softSyncLength (lists : List SoftSyncChannelList) : ℕ := 8 + (lists.map fun l => 6 + 4 * l.channelIds.length).sum

def encodeSoftSyncRequest (pdu : SoftSyncRequest) : Option (List UInt8) := do
  asserts (if pdu.flags &&& channelListPresent ≠ 0 then pdu.channelLists.length = pdu.numberOfTunnels
    else pdu.channelLists = [])
  asserts (∀ list ∈ pdu.channelLists, list.channelIds.length ≤ 0xFFFF)
  let length := softSyncLength pdu.channelLists
  asserts (length ≤ 0xFFFFFFFF)
  pure (Writer.u8 (headerByte softSyncRequest 0 0) ++ (Writer.u8 0 ++ (Writer.u32le length ++
    (Writer.u16le pdu.flags ++ (Writer.u16le pdu.numberOfTunnels ++
      pdu.channelLists.flatMap writeSoftSyncChannelList)))))

def encodeSoftSyncResponse (tunnels : List ℕ) : Option (List UInt8) := do
  asserts (tunnels.length ≤ 0xFFFFFFFF)
  pure (Writer.u8 (headerByte softSyncResponse 0 0) ++ (Writer.u8 0 ++ (Writer.u32le tunnels.length ++
    tunnels.flatMap Writer.u32le)))

def encodeCommon : CommonPdu → Option (List UInt8)
  | .dataFirst pdu => encodeDataFirst pdu
  | .data pdu => some (encodeDataPdu pdu)
  | .dataFirstCompressed pdu => some (encodeDataFirstCompressed pdu)
  | .dataCompressed pdu => some (encodeDataCompressed pdu)
  | .close pdu => some (encodeClose pdu)

def encodeClientPdu : ClientPdu → Option (List UInt8)
  | .capsResponse pdu => some (encodeCapsResponse pdu)
  | .createResponse pdu => some (encodeCreateResponse pdu)
  | .common pdu => encodeCommon pdu
  | .softSyncResponse tunnels => encodeSoftSyncResponse tunnels

def encodeServerPdu : ServerPdu → Option (List UInt8)
  | .capsRequest pdu => encodeCapsRequest pdu
  | .createRequest pdu => some (encodeCreateRequest pdu)
  | .common pdu => encodeCommon pdu
  | .softSyncRequest pdu => encodeSoftSyncRequest pdu

/-! ### What the fields of a type can hold -/

def CommonPdu.Typed : CommonPdu → Prop
  | .dataFirst pdu => pdu.channelId < 2 ^ 32 ∧ pdu.length < 2 ^ 32
  | .data pdu => pdu.channelId < 2 ^ 32
  | .dataFirstCompressed pdu => pdu.channelId < 2 ^ 32 ∧ pdu.length < 2 ^ 32
  | .dataCompressed pdu => pdu.channelId < 2 ^ 32
  | .close pdu => pdu.channelId < 2 ^ 32

structure CreateResponse.Typed (pdu : CreateResponse) : Prop where
  channelId : pdu.channelId < 2 ^ 32
  status : -(2 ^ 31) ≤ pdu.creationStatus ∧ pdu.creationStatus < 2 ^ 31

def ClientPdu.Typed : ClientPdu → Prop
  | .capsResponse pdu => pdu.version < 2 ^ 16
  | .createResponse pdu => pdu.Typed
  | .common pdu => pdu.Typed
  | .softSyncResponse tunnels => ∀ tunnel ∈ tunnels, tunnel < 2 ^ 32

structure PriorityCharges.Typed (charges : PriorityCharges) : Prop where
  charge0 : charges.charge0 < 2 ^ 16
  charge1 : charges.charge1 < 2 ^ 16
  charge2 : charges.charge2 < 2 ^ 16
  charge3 : charges.charge3 < 2 ^ 16

structure SoftSyncChannelList.Typed (list : SoftSyncChannelList) : Prop where
  tunnelType : list.tunnelType < 2 ^ 32
  channelIds : ∀ id ∈ list.channelIds, id < 2 ^ 32

structure SoftSyncRequest.Typed (pdu : SoftSyncRequest) : Prop where
  flags : pdu.flags < 2 ^ 16
  numberOfTunnels : pdu.numberOfTunnels < 2 ^ 16
  channelLists : ∀ list ∈ pdu.channelLists, list.Typed

def ServerPdu.Typed : ServerPdu → Prop
  | .capsRequest pdu => pdu.priorityCharges.Typed
  | .createRequest pdu => pdu.channelId < 2 ^ 32
  | .common pdu => pdu.Typed
  | .softSyncRequest pdu => pdu.Typed

/-- What of a Capabilities Request is on the wire. -/
def CapsRequest.onWire (pdu : CapsRequest) : CapsRequest :=
  if version2 ≤ pdu.version then pdu else { pdu with priorityCharges := ⟨0, 0, 0, 0⟩ }

def ServerPdu.onWire : ServerPdu → ServerPdu
  | .capsRequest pdu => .capsRequest pdu.onWire
  | pdu => pdu

/-! ### Fields -/

theorem readVar_readsBack {v : ℕ} (h : v < 2 ^ 32) : (readVar (sizeCode v)).ReadsBack (writeVar v) v := by
  unfold writeVar
  by_cases h1 : v ≤ 0xFF
  · rw [show sizeCode v = 0 from if_pos h1]
    exact u8_readsBack (by omega)
  by_cases h2 : v ≤ 0xFFFF
  · rw [show sizeCode v = 1 by rw [sizeCode, if_neg h1, if_pos h2]]
    exact u16le_readsBack (by omega)
  · rw [show sizeCode v = 2 by rw [sizeCode, if_neg h1, if_neg h2]]
    exact u32le_readsBack h

/-- A variable-length field under the code of its header. -/
theorem readCode_readsBack {v : ℕ} (h : v < 2 ^ 32) :
    (readVar ((Fin.ofNat 4 (sizeCode v) : Fin 4) : ℕ)).ReadsBack (writeVar v) v := by
  rw [val_ofNat_sizeCode]
  exact readVar_readsBack h

theorem readHeader_readsBack {c s b : ℕ} (hc : c < 16) (hs : s < 4) (hb : b < 4) :
    readHeader.ReadsBack (Writer.u8 (headerByte c s b)) ⟨c, Fin.ofNat 4 s, Fin.ofNat 4 b⟩ :=
  fun rest o => readHeader_u8 rest o hc hs hb

theorem takeRest_reads (bytes : List UInt8) : takeRest.Reads bytes bytes := fun _ => ⟨_, rfl⟩

theorem pad_readsBack : (skip 1).ReadsBack (Writer.u8 0) () := fun rest o => skip_append (Writer.u8 0) rest o rfl

/-! ### Data and Close -/

variable {bytes : List UInt8} {pdu : CommonPdu}

/-- **Data and Close PDUs**: behind the header, which names none of the other commands. -/
theorem decodeCommon_reads (htyped : pdu.Typed) (h : encodeCommon pdu = some bytes) :
    ∃ c s b body, bytes = Writer.u8 (headerByte c s b) ++ body ∧ c < 16 ∧ s < 4 ∧
      b < 4 ∧ c ≠ capabilities ∧ c ≠ create ∧ c ≠ softSyncRequest ∧ c ≠ softSyncResponse ∧
      (decodeCommon ⟨c, Fin.ofNat 4 s, Fin.ofNat 4 b⟩).Reads body pdu := by
  cases pdu with
  | dataFirst pdu =>
    obtain ⟨hid, hlength⟩ := htyped
    change (if pdu.data.length ≤ pdu.length then _ else _) = _ at h
    split_ifs at h with hfits
    cases Option.some.inj h
    refine ⟨dataFirst, sizeCode pdu.length, sizeCode pdu.channelId, writeVar pdu.channelId ++
      (writeVar pdu.length ++ pdu.data), by simp only [writeIdPdu, append_assoc], by decide, sizeCode_lt _,
      sizeCode_lt _, by decide, by decide, by decide, by decide, ?_⟩
    have hread : (decodeDataFirst ⟨dataFirst, Fin.ofNat 4 (sizeCode pdu.length),
        Fin.ofNat 4 (sizeCode pdu.channelId)⟩).Reads (writeVar pdu.channelId ++ (writeVar pdu.length ++ pdu.data)) pdu := by
      apply (readCode_readsBack hid).then
      apply (readCode_readsBack hlength).then
      exact (takeRest_reads pdu.data).then fun r => ⟨r, rfl⟩
    apply hread.then
    intro r
    refine ⟨r, ?_⟩
    rw [Parse.bind_ok (a := r.offset) rfl, if_neg (Nat.not_lt.mpr hfits)]
    rfl
  | data pdu =>
    cases Option.some.inj h
    refine ⟨data, 0, sizeCode pdu.channelId, writeVar pdu.channelId ++ pdu.data,
      by simp only [encodeDataPdu, writeIdPdu, append_assoc], by decide, by decide, sizeCode_lt _, by decide,
      by decide, by decide, by decide, ?_⟩
    apply Reads.map (p := decodeData _)
    apply (readCode_readsBack (show pdu.channelId < 2 ^ 32 from htyped)).then
    exact (takeRest_reads pdu.data).then fun r => ⟨r, rfl⟩
  | dataFirstCompressed pdu =>
    obtain ⟨hid, hlength⟩ := htyped
    cases Option.some.inj h
    refine ⟨dataFirstCompressed, sizeCode pdu.length, sizeCode pdu.channelId, writeVar pdu.channelId ++
      (writeVar pdu.length ++ pdu.data), by simp only [encodeDataFirstCompressed, writeIdPdu, append_assoc],
      by decide, sizeCode_lt _, sizeCode_lt _, by decide, by decide, by decide, by decide, ?_⟩
    apply Reads.map (p := decodeDataFirst _)
    apply (readCode_readsBack hid).then
    apply (readCode_readsBack hlength).then
    exact (takeRest_reads pdu.data).then fun r => ⟨r, rfl⟩
  | dataCompressed pdu =>
    cases Option.some.inj h
    refine ⟨dataCompressed, 0, sizeCode pdu.channelId, writeVar pdu.channelId ++ pdu.data,
      by simp only [encodeDataCompressed, writeIdPdu, append_assoc], by decide, by decide, sizeCode_lt _,
      by decide, by decide, by decide, by decide, ?_⟩
    apply Reads.map (p := decodeData _)
    apply (readCode_readsBack (show pdu.channelId < 2 ^ 32 from htyped)).then
    exact (takeRest_reads pdu.data).then fun r => ⟨r, rfl⟩
  | close pdu =>
    cases Option.some.inj h
    refine ⟨close, 0, sizeCode pdu.channelId, writeVar pdu.channelId ++ [],
      by simp only [encodeClose, writeIdPdu, append_nil], by decide, by decide, sizeCode_lt _, by decide,
      by decide, by decide, by decide, ?_⟩
    apply Reads.map (p := decodeClose _)
    apply (readCode_readsBack (show pdu.channelId < 2 ^ 32 from htyped)).then
    exact expectEnd_reads _ fun o => ⟨_, rfl⟩

/-! ### Clients -/

theorem decodeClientPdu_of {pdu : ClientPdu} (h : clientPdu.Reads bytes pdu) : decodeClientPdu bytes = .ok pdu := by
  obtain ⟨r, hr⟩ := h 0
  rw [decodeClientPdu, hr]
  rfl

theorem clientPdu_common (htyped : pdu.Typed) (h : encodeCommon pdu = some bytes) :
    decodeClientPdu bytes = .ok (.common pdu) := by
  obtain ⟨c, s, b, body, rfl, hc, hs, hb, h1, h2, -, h4, hreads⟩ := decodeCommon_reads htyped h
  apply decodeClientPdu_of
  apply (readHeader_readsBack hc hs hb).then
  rw [if_neg h1, if_neg h2, if_neg h4]
  exact hreads.map

theorem flatMap_u32le_length : ∀ l : List ℕ, (l.flatMap Writer.u32le).length = 4 * l.length
  | [] => rfl
  | v :: l => by
    rw [flatMap_cons, length_append, flatMap_u32le_length l, length_cons, Writer.u32le_length]
    omega

/-- Counted tunnels to the end of the PDU. -/
theorem readSoftSyncResponse_reads {tunnels : List ℕ} (hcount : tunnels.length ≤ 0xFFFFFFFF)
    (h : ∀ tunnel ∈ tunnels, tunnel < 2 ^ 32) :
    readSoftSyncResponse.Reads (Writer.u8 0 ++ (Writer.u32le tunnels.length ++ tunnels.flatMap Writer.u32le))
      tunnels := by
  have hmany := readMany_readsBack tunnels fun tunnel ht => u32le_readsBack (h tunnel ht)
  apply pad_readsBack.then
  apply (u32le_readsBack (show tunnels.length < 2 ^ 32 by omega)).then
  intro o
  obtain ⟨r, hr⟩ := hmany.reads o
  refine ⟨r, ?_⟩
  have hleft : ¬ (tunnels.length > (tunnels.flatMap Writer.u32le).length / 4 ∨
      tunnels.length * 4 ≠ (tunnels.flatMap Writer.u32le).length) := by
    rw [flatMap_u32le_length]
    omega
  exact (congrFun (if_neg hleft) _).trans hr

/-- **A client's PDU comes back.** -/
theorem decode_encodeClient {pdu : ClientPdu} (htyped : pdu.Typed) (h : encodeClientPdu pdu = some bytes) :
    decodeClientPdu bytes = .ok pdu := by
  cases pdu with
  | capsResponse pdu =>
    cases Option.some.inj h
    apply decodeClientPdu_of
    apply (readHeader_readsBack (by decide) (by decide) (by decide)).then
    apply Reads.map (p := decodeCapsResponse)
    apply pad_readsBack.then
    apply (u16le_readsBack (show pdu.version < 2 ^ 16 from htyped)).last
    exact expectEnd_reads _ fun o => ⟨_, rfl⟩
  | createResponse pdu =>
    cases Option.some.inj h
    apply decodeClientPdu_of
    apply (readHeader_readsBack (by decide) (by decide) (sizeCode_lt _)).then
    apply Reads.map (p := decodeCreateResponse _)
    apply (readCode_readsBack htyped.channelId).then
    apply (u32le_readsBack (toUnsigned_lt 32 _)).last
    rw [toSigned_toUnsigned (w := 31) htyped.status.1 htyped.status.2]
    exact fun o => ⟨_, rfl⟩
  | common pdu => exact clientPdu_common htyped h
  | softSyncResponse tunnels =>
    obtain ⟨_, hcount, h⟩ := Option.bind_eq_some_iff.mp h
    cases Option.some.inj h
    apply decodeClientPdu_of
    apply (readHeader_readsBack (by decide) (by decide) (by decide)).then
    exact Reads.map (readSoftSyncResponse_reads (asserts_eq_some.mp hcount) htyped)

/-! ### Servers -/

theorem decodeServerPdu_of {pdu : ServerPdu} (h : serverPdu.Reads bytes pdu) : decodeServerPdu bytes = .ok pdu := by
  obtain ⟨r, hr⟩ := h 0
  exact decodeServerPdu_eq hr

theorem serverPdu_common (htyped : pdu.Typed) (h : encodeCommon pdu = some bytes) :
    decodeServerPdu bytes = .ok (.common pdu) := by
  obtain ⟨c, s, b, body, rfl, hc, hs, hb, h1, h2, h3, -, hreads⟩ := decodeCommon_reads htyped h
  apply decodeServerPdu_of
  apply (readHeader_readsBack hc hs hb).then
  rw [if_neg h1, if_neg h2, if_neg h3]
  exact hreads.map

/-- The priority charges, from version 2 on. -/
theorem readPriorityCharges_readsBack {pdu : CapsRequest} (h1 : version1 ≤ pdu.version) (h3 : pdu.version ≤ version3)
    (h : pdu.priorityCharges.Typed) :
    (readPriorityCharges pdu.version).ReadsBack (if version2 ≤ pdu.version then
      Writer.u16le pdu.priorityCharges.charge0 ++ (Writer.u16le pdu.priorityCharges.charge1 ++
        (Writer.u16le pdu.priorityCharges.charge2 ++ Writer.u16le pdu.priorityCharges.charge3)) else [])
      pdu.onWire.priorityCharges := by
  unfold readPriorityCharges CapsRequest.onWire version2 version3 version1 at *
  by_cases hv : pdu.version = 2 ∨ pdu.version = 3
  · have h2 : 2 ≤ pdu.version := by omega
    rw [if_pos hv, if_pos h2, if_pos h2]
    apply (u16le_readsBack h.charge0).bind
    apply (u16le_readsBack h.charge1).bind
    apply (u16le_readsBack h.charge2).bind
    apply (u16le_readsBack h.charge3).map
    exact ReadsBack.pure _
  · have h2 : ¬ 2 ≤ pdu.version := by omega
    rw [if_neg hv, if_neg (by omega : ¬ pdu.version ≠ 1), if_neg h2, if_neg h2]
    exact ReadsBack.pure _

theorem writeSoftSyncChannelList_length (list : SoftSyncChannelList) :
    (writeSoftSyncChannelList list).length = 6 + 4 * list.channelIds.length := by
  simp only [writeSoftSyncChannelList, length_append, flatMap_u32le_length, Writer.u32le_length,
    Writer.u16le_length]
  omega

theorem flatMap_softSync_length : ∀ lists : List SoftSyncChannelList,
    8 + (lists.flatMap writeSoftSyncChannelList).length = softSyncLength lists
  | [] => rfl
  | list :: lists => by
    have ih := flatMap_softSync_length lists
    unfold softSyncLength at ih ⊢
    rw [flatMap_cons, length_append, writeSoftSyncChannelList_length, map_cons, sum_cons]
    omega

theorem readSoftSyncChannelList_readsBack {list : SoftSyncChannelList} (h : list.Typed)
    (hcount : list.channelIds.length ≤ 0xFFFF) :
    readSoftSyncChannelList.ReadsBack (writeSoftSyncChannelList list) list := by
  have hmany := readMany_readsBack list.channelIds fun id hid => u32le_readsBack (h.channelIds id hid)
  apply (u32le_readsBack h.tunnelType).bind
  apply (u16le_readsBack (show list.channelIds.length < 2 ^ 16 by omega)).bind
  intro rest o
  have hleft : ¬ list.channelIds.length * 4 > (list.channelIds.flatMap Writer.u32le ++ rest).length := by
    rw [length_append, flatMap_u32le_length]
    omega
  refine (congrFun (if_neg hleft) _).trans ?_
  rw [Parse.bind_ok (hmany rest o)]
  rfl

/-- Length, flags and lists, to the end of the PDU. -/
theorem readSoftSyncRequest_reads {pdu : SoftSyncRequest} (htyped : pdu.Typed)
    (hlists : if pdu.flags &&& channelListPresent ≠ 0 then pdu.channelLists.length = pdu.numberOfTunnels
      else pdu.channelLists = [])
    (hcounts : ∀ list ∈ pdu.channelLists, list.channelIds.length ≤ 0xFFFF)
    (hlength : softSyncLength pdu.channelLists ≤ 0xFFFFFFFF) :
    readSoftSyncRequest.Reads (Writer.u8 0 ++ (Writer.u32le (softSyncLength pdu.channelLists) ++
      (Writer.u16le pdu.flags ++ (Writer.u16le pdu.numberOfTunnels ++
        pdu.channelLists.flatMap writeSoftSyncChannelList)))) pdu := by
  have hsize := flatMap_softSync_length pdu.channelLists
  have hmany := readMany_readsBack pdu.channelLists fun list hl =>
    readSoftSyncChannelList_readsBack (htyped.channelLists list hl) (hcounts list hl)
  have hread : (if pdu.flags &&& channelListPresent ≠ 0 then readMany readSoftSyncChannelList pdu.numberOfTunnels
      else pure [] : Parse (List SoftSyncChannelList)).ReadsBack (pdu.channelLists.flatMap writeSoftSyncChannelList)
        pdu.channelLists := by
    split_ifs at hlists ⊢ with hpresent
    · rw [← hlists]
      exact hmany
    · rw [hlists]
      exact ReadsBack.pure []
  apply pad_readsBack.then
  apply (u32le_readsBack (show softSyncLength pdu.channelLists < 2 ^ 32 by omega)).then
  have htail : (do
      let flags ← u16le
      let numberOfTunnels ← u16le
      let channelLists ←
        if flags &&& channelListPresent ≠ 0 then readMany readSoftSyncChannelList numberOfTunnels else pure []
      expectEnd "Soft-Sync Request"
      pure ⟨flags, numberOfTunnels, channelLists⟩ : Parse SoftSyncRequest).Reads (Writer.u16le pdu.flags ++
        (Writer.u16le pdu.numberOfTunnels ++ pdu.channelLists.flatMap writeSoftSyncChannelList)) pdu := by
    apply (u16le_readsBack htyped.flags).then
    apply (u16le_readsBack htyped.numberOfTunnels).then
    have hend := hread.last (f := fun channelLists => do
      expectEnd "Soft-Sync Request"
      pure (⟨pdu.flags, pdu.numberOfTunnels, channelLists⟩ : SoftSyncRequest))
      (expectEnd_reads (b := pdu) "Soft-Sync Request" fun o => ⟨⟨[], o⟩, rfl⟩)
    split_ifs at hend ⊢ with hpresent
    · exact hend
    · exact hend
  intro o
  obtain ⟨r, hr⟩ := htail o
  refine ⟨r, ?_⟩
  have hleft : ¬ (softSyncLength pdu.channelLists < 8 ∨ softSyncLength pdu.channelLists - 4 ≠
      (Writer.u16le pdu.flags ++ (Writer.u16le pdu.numberOfTunnels ++
        pdu.channelLists.flatMap writeSoftSyncChannelList)).length) := by
    simp only [length_append, Writer.u16le_length]
    omega
  exact (congrFun (if_neg hleft) _).trans hr

/-- **A server's PDU comes back**, as far as it is on the wire. -/
theorem decode_encodeServer {pdu : ServerPdu} (htyped : pdu.Typed) (h : encodeServerPdu pdu = some bytes) :
    decodeServerPdu bytes = .ok pdu.onWire := by
  cases pdu with
  | capsRequest pdu =>
    have hv : version1 ≤ pdu.version ∧ pdu.version ≤ version3 := by
      by_contra hv
      cases (if_neg hv).symm.trans h
    cases Option.some.inj ((if_pos hv).symm.trans h)
    have hversion : pdu.version < 2 ^ 16 := lt_of_le_of_lt hv.2 (by decide)
    have hcharges := readPriorityCharges_readsBack hv.1 hv.2 htyped
    apply decodeServerPdu_of
    apply (readHeader_readsBack (by decide) (by decide) (by decide)).then
    apply Reads.map (p := decodeCapsRequest) (a := pdu.onWire)
    apply pad_readsBack.then
    apply (u16le_readsBack hversion).then
    apply hcharges.last
    have hwire : pdu.onWire.version = pdu.version := by
      unfold CapsRequest.onWire
      split_ifs <;> rfl
    rw [← hwire]
    exact fun o => ⟨_, rfl⟩
  | createRequest pdu =>
    cases Option.some.inj h
    exact decodeServerPdu_createRequest pdu htyped
  | common pdu => exact serverPdu_common htyped h
  | softSyncRequest pdu =>
    obtain ⟨_, hlists, h⟩ := Option.bind_eq_some_iff.mp h
    obtain ⟨_, hcounts, h⟩ := Option.bind_eq_some_iff.mp h
    obtain ⟨_, hlength, h⟩ := Option.bind_eq_some_iff.mp h
    rw [asserts_eq_some] at hlists hcounts hlength
    cases Option.some.inj h
    apply decodeServerPdu_of
    apply (readHeader_readsBack (by decide) (by decide) (by decide)).then
    exact Reads.map (readSoftSyncRequest_reads htyped hlists hcounts hlength)

end Drdynvc
end Channels
end Farland
