/-
# Messages over both layers

A message of a dynamic channel is split into data PDUs (`encode_data`), each
PDU into chunks of the static channel (`encode_chunks`). The PDUs of different
channels may come in any order that keeps each channel's own (`InOrder`). The
receiver is three machines, one behind the other: the chunks of a PDU, the PDU
decoded by either side, and the messages of each channel.

Key theorems: `encodeData_run`, `transport_lossless`.
-/
import Farland.Channels.Drdynvc.Link
import Farland.Channels.Drdynvc.RoundTrip
import Farland.Channels.Svc

namespace Farland
namespace Channels
namespace Drdynvc

open List Machine

/-! ### The receiver -/

/-- Who receives. -/
inductive Side where
  | client
  | server
  deriving DecidableEq

/-- The fragment of a data PDU, and its channel. -/
def CommonPdu.frag : CommonPdu → Option (ℕ × Frag)
  | .dataFirst pdu => some (pdu.channelId, .first pdu.length pdu.data)
  | .data pdu => some (pdu.channelId, .next pdu.data)
  | _ => none

variable (side : Side)

/-- What a side decodes of a PDU: a fragment, or none of a PDU without one. -/
def decodeFrag (pdu : List UInt8) : Result (Option (ℕ × Frag)) :=
  match side with
  | .server => (decodeClientPdu pdu).map fun | .common pdu => pdu.frag | _ => none
  | .client => (decodeServerPdu pdu).map fun | .common pdu => pdu.frag | _ => none

/-- A fragment that is no error. -/
def MessageReassembler.receive (r : MessageReassembler) (frag : Frag) :
    Result (Option (List UInt8) × MessageReassembler) :=
  match r.take frag with
  | (.ok message, r) => .ok (message, r)
  | (.error e, _) => .error e

/-- A PDU to the reassembler of its channel. -/
def dispatch (channels : ℕ → MessageReassembler) (pdu : List UInt8) :
    Result (Option (ℕ × List UInt8) × (ℕ → MessageReassembler)) := do
  match ← decodeFrag side pdu with
  | none => .ok (none, channels)
  | some frag => routed MessageReassembler.receive channels frag

/-- A chunk of the static channel. -/
def receive (s : Svc.Reassembler × (ℕ → MessageReassembler)) (chunk : List UInt8) :
    Result (Option (ℕ × List UInt8) × Svc.Reassembler × (ℕ → MessageReassembler)) :=
  piped Svc.Reassembler.receive (dispatch side) s chunk

/-! ### The sender -/

/-- A PDU on its way, and the size of the chunks it is cut into. -/
structure Send where
  channelId : ℕ
  pdu : List UInt8
  maxChunk : ℕ
  deriving DecidableEq

variable {id : ℕ} {r : MessageReassembler} {message : List UInt8} {sends : List Send}

/-- The PDUs of each channel's messages, in the order of that channel. -/
def InOrder (messages : List (ℕ × List UInt8)) (sends : List Send) : Prop :=
  ∀ id, ∃ pdus, List.Forall₂ (fun message split => encodeData id message = some split) (ofKey id messages) pdus ∧
    (sends.filter (·.channelId = id)).map (·.pdu) = pdus.flatten

/-- The chunks of each PDU, one PDU after the other. -/
def Cut (sends : List Send) (chunks : List (List (List UInt8))) : Prop :=
  List.Forall₂ (fun send cut => Svc.encodeChunks send.pdu send.maxChunk = some cut) sends chunks

/-! ### The fragments of a message -/

/-- No message is incomplete. -/
def MessageReassembler.Idle (r : MessageReassembler) : Prop := r.total = none ∧ r.buffer = []

variable {block : List UInt8}

/-- A block that leaves some of the message to come. -/
theorem receive_block {total : ℕ} (htotal : r.total = some total) (h : r.buffer.length + block.length < total) :
    r.receive (.next block) = .ok (none, { r with buffer := r.buffer ++ block }) := by
  unfold MessageReassembler.receive MessageReassembler.take MessageReassembler.next
  rw [htotal]
  dsimp only
  rw [if_neg (by omega), if_pos (by rwa [length_append])]

/-- The last block. -/
theorem receive_end {total : ℕ} (htotal : r.total = some total) (h : r.buffer.length + block.length = total) :
    r.receive (.next block) = .ok (some (r.buffer ++ block), { r with total := none, buffer := [] }) := by
  unfold MessageReassembler.receive MessageReassembler.take MessageReassembler.next
  rw [htotal]
  dsimp only
  rw [if_neg (by omega), if_neg (by rw [length_append]; omega)]

theorem receive_whole (hidle : r.Idle)
    (h : message.length ≤ r.maxSize) : r.receive (.next message) = .ok (some message, r) := by
  unfold MessageReassembler.receive
  rw [take_whole hidle.1 h]

theorem receive_first {length : ℕ} (hidle : r.Idle) (hlength : length ≤ r.maxSize) (h : block.length < length) :
    r.receive (.first length block) = .ok (none, { r with total := some length, buffer := block }) := by
  unfold MessageReassembler.receive MessageReassembler.take MessageReassembler.first
  dsimp only
  rw [if_neg (by simp [hidle.1]), if_neg (by omega), if_neg (by omega), if_neg (by omega)]

/-- A first fragment may be the whole message. -/
theorem receive_all (hidle : r.Idle)
    (hlength : message.length ≤ r.maxSize) : r.receive (.first message.length message) = .ok (some message, r) := by
  unfold MessageReassembler.receive MessageReassembler.take MessageReassembler.first
  dsimp only
  rw [if_neg (by simp [hidle.1]), if_neg (by omega), if_neg (by omega), if_pos rfl]

/-- The fragment in a PDU, whoever decodes it. -/
def fragOf (pdu : List UInt8) : Frag :=
  match decodeFrag .server pdu with
  | .ok (some (_, frag)) => frag
  | _ => .next []

/-- A PDU that both sides decode to a fragment of this channel. -/
def Carries (id : ℕ) (pdu : List UInt8) : Prop := ∀ side, decodeFrag side pdu = .ok (some (id, fragOf pdu))

theorem carries_of_common (pdu : CommonPdu) {bytes : List UInt8} {frag : Frag} (htyped : pdu.Typed)
    (h : encodeCommon pdu = some bytes) (hfrag : pdu.frag = some (id, frag)) :
    Carries id bytes ∧ fragOf bytes = frag := by
  have hserver : decodeFrag .server bytes = .ok (some (id, frag)) := by
    unfold decodeFrag
    rw [clientPdu_common htyped h, ← hfrag]
    rfl
  have hclient : decodeFrag .client bytes = .ok (some (id, frag)) := by
    unfold decodeFrag
    rw [serverPdu_common htyped h, ← hfrag]
    rfl
  have hof : fragOf bytes = frag := by rw [fragOf, hserver]
  refine ⟨fun side => ?_, hof⟩
  cases side with
  | client => rw [hclient, hof]
  | server => rw [hserver, hof]

theorem encodeDataPdu_carries (data : List UInt8) (hid : id < 2 ^ 32) :
    Carries id (encodeDataPdu ⟨id, data⟩) ∧ fragOf (encodeDataPdu ⟨id, data⟩) = .next data :=
  carries_of_common (.data ⟨id, data⟩) hid rfl rfl

/-- The PDUs behind the first give what is left of the message. -/
theorem dataPdus_run {block : ℕ} (hid : id < 2 ^ 32) (hblock : 0 < block) : ∀ (fuel : ℕ) (rest : List UInt8)
    (r : MessageReassembler), rest.length ≤ fuel → rest ≠ [] → r.total = some (r.buffer.length + rest.length) →
      (∀ pdu ∈ dataPdus id block fuel rest, Carries id pdu) ∧
        run MessageReassembler.receive r ((dataPdus id block fuel rest).map fragOf) =
          .ok ([r.buffer ++ rest], { r with total := none, buffer := [] })
  | 0, rest, r, hfuel, hrest, _ => absurd (eq_nil_of_length_eq_zero (by omega)) hrest
  | fuel + 1, rest, r, hfuel, hrest, htotal => by
    obtain ⟨hcarries, hfrag⟩ := encodeDataPdu_carries (rest.take block) hid
    have hpos : 0 < rest.length := length_pos_iff.mpr hrest
    have htake : (rest.take block).length = min block rest.length := length_take
    rw [dataPdus, if_neg hrest, map_cons, hfrag]
    by_cases hend : rest.length ≤ block
    · have hall : rest.take block = rest := take_of_length_le hend
      have hnone : dataPdus id block fuel (rest.drop block) = [] := by
        rw [drop_eq_nil_of_le hend]
        cases fuel <;> simp [dataPdus]
      rw [hnone, hall]
      refine ⟨?_, run_cons (receive_end htotal rfl) rfl⟩
      rw [hall] at hcarries
      simpa using hcarries
    · have hmore : r.buffer.length + (rest.take block).length < r.buffer.length + rest.length := by omega
      have hdrop : (rest.drop block).length = rest.length - block := length_drop
      obtain ⟨hrestCarries, hrun⟩ := dataPdus_run hid hblock fuel (rest.drop block)
        { r with buffer := r.buffer ++ rest.take block } (by omega)
        (fun h => by rw [h, length_nil] at hdrop; omega)
        (by rw [htotal, length_append]; congr 1; omega)
      refine ⟨?_, ?_⟩
      · rw [forall_mem_cons]
        exact ⟨hcarries, hrestCarries⟩
      · rw [append_assoc, take_append_drop] at hrun
        exact run_cons (receive_block htotal hmore) hrun

theorem fieldSize_bounds (v : ℕ) : 1 ≤ fieldSize (sizeCode v) ∧ fieldSize (sizeCode v) ≤ 4 := by
  unfold sizeCode
  split_ifs <;> decide

/-- What the first PDU of a message above 1590 bytes has room for. -/
theorem firstBlock_bounds (id total : ℕ) :
    0 < maxPduSize - (1 + fieldSize (sizeCode id) + fieldSize (sizeCode total)) ∧
      0 < maxPduSize - (1 + fieldSize (sizeCode id)) := by
  have hid := fieldSize_bounds id
  have htotal := fieldSize_bounds total
  unfold maxPduSize
  omega

/-- **The PDUs of a message give the message** at the last, and leave nothing. -/
theorem encodeData_run {pdus : List (List UInt8)} (hid : id < 2 ^ 32)
    (h : encodeData id message = some pdus) : (∀ pdu ∈ pdus, Carries id pdu) ∧
      ∀ r : MessageReassembler, r.Idle → message.length ≤ r.maxSize →
        run MessageReassembler.receive r (pdus.map fragOf) = .ok ([message], r) := by
  unfold encodeData at h
  by_cases hlarge : message.length > 0xFFFFFFFF
  · cases (if_pos hlarge).symm.trans h
  rw [if_neg hlarge] at h
  by_cases hsingle : message.length ≤ maxSingleDataSize
  · cases Option.some.inj ((if_pos hsingle).symm.trans h)
    obtain ⟨hcarries, hfrag⟩ := encodeDataPdu_carries message hid
    refine ⟨by simpa using hcarries, fun r hidle hroom => ?_⟩
    rw [map_singleton, hfrag]
    exact run_cons (receive_whole hidle hroom) rfl
  · rw [if_neg hsingle] at h
    obtain ⟨hfirst, hblock⟩ := firstBlock_bounds id message.length
    set firstBlock := maxPduSize - (1 + fieldSize (sizeCode id) + fieldSize (sizeCode message.length)) with hfb
    set offset := min firstBlock message.length with hoffset
    have htake : (message.take offset).length = offset := by
      rw [length_take]
      omega
    have henc : ∃ first, encodeDataFirst ⟨id, message.length, message.take offset⟩ = some first :=
      ⟨_, if_pos (by dsimp only; omega)⟩
    obtain ⟨first, henc⟩ := henc
    dsimp only at h
    rw [henc] at h
    cases Option.some.inj h
    obtain ⟨hcarries, hfrag⟩ := carries_of_common (.dataFirst ⟨id, message.length, message.take offset⟩)
      ⟨hid, by dsimp only; omega⟩ henc rfl
    have hdrop : (message.drop offset).length = message.length - offset := length_drop
    by_cases hwhole : offset = message.length
    · have hnone : dataPdus id (maxPduSize - (1 + fieldSize (sizeCode id))) message.length (message.drop offset) = [] := by
        rw [hwhole, drop_length]
        cases message.length <;> simp [dataPdus]
      have hall : message.take offset = message := by rw [hwhole, take_length]
      rw [hnone]
      refine ⟨by simpa using hcarries, fun r hidle hroom => ?_⟩
      rw [map_singleton, hfrag, hall]
      exact run_cons (receive_all hidle hroom) rfl
    · have hrest : message.drop offset ≠ [] := by
        intro hnil
        rw [hnil, length_nil] at hdrop
        omega
      refine ⟨?_, fun r hidle hroom => ?_⟩
      · have hrun := dataPdus_run hid hblock message.length (message.drop offset)
          { maxSize := 0, total := some (0 + (message.drop offset).length), buffer := [] } (by omega) hrest rfl
        rw [forall_mem_cons]
        exact ⟨hcarries, hrun.1⟩
      · have hlater := (dataPdus_run hid hblock message.length (message.drop offset)
          { r with total := some message.length, buffer := message.take offset } (by omega) hrest
          (by dsimp only; rw [htake]; congr 1; omega)).2
        have hend : ({ r with total := none, buffer := [] } : MessageReassembler) = r := by
          rw [← hidle.1, ← hidle.2]
        rw [take_append_drop] at hlater
        rw [hend] at hlater
        rw [map_cons, hfrag]
        exact run_cons (receive_first hidle hroom (by rw [htake]; omega)) hlater

/-- The encoder aborts only for a message that its length field cannot hold. -/
theorem encodeData_some (id : ℕ) (h : message.length ≤ 0xFFFFFFFF) :
    ∃ pdus, encodeData id message = some pdus := by
  unfold encodeData
  rw [if_neg (by omega)]
  by_cases hsingle : message.length ≤ maxSingleDataSize
  · exact ⟨_, if_pos hsingle⟩
  · rw [if_neg hsingle]
    dsimp only
    have hfits : (message.take (min (maxPduSize - (1 + fieldSize (sizeCode id) + fieldSize (sizeCode message.length)))
        message.length)).length ≤ message.length := length_take_le' _ _
    rw [show encodeDataFirst ⟨id, message.length, _⟩ = _ from if_pos hfits]
    exact ⟨_, rfl⟩

theorem writeVar_length (v : ℕ) : (writeVar v).length = fieldSize (sizeCode v) := by
  unfold writeVar sizeCode
  split_ifs <;> rfl

theorem writeIdPdu_length (command sp id : ℕ) :
    (writeIdPdu command sp id).length = 1 + fieldSize (sizeCode id) := by
  rw [writeIdPdu, length_append, writeVar_length, Writer.u8_length]

theorem encodeDataPdu_length (pdu : Data) :
    (encodeDataPdu pdu).length = 1 + fieldSize (sizeCode pdu.channelId) + pdu.data.length := by
  rw [encodeDataPdu, length_append, writeIdPdu_length]

theorem dataPdus_length {block : ℕ} (hblock : 1 + fieldSize (sizeCode id) + block ≤ maxPduSize) :
    ∀ (fuel : ℕ) (rest : List UInt8), ∀ pdu ∈ dataPdus id block fuel rest, pdu.length ≤ maxPduSize
  | 0, _, _, h => nomatch h
  | fuel + 1, rest, pdu, h => by
    unfold dataPdus at h
    split_ifs at h with hrest
    · cases h
    · rcases mem_cons.mp h with rfl | h
      · rw [encodeDataPdu_length, length_take]
        dsimp only
        omega
      · exact dataPdus_length hblock fuel _ pdu h

/-- **No PDU of a message is above the maximum.** -/
theorem encodeData_length {pdus : List (List UInt8)}
    (h : encodeData id message = some pdus) : ∀ pdu ∈ pdus, pdu.length ≤ maxPduSize := by
  have hid := fieldSize_bounds id
  have htotal := fieldSize_bounds message.length
  unfold encodeData at h
  by_cases hlarge : message.length > 0xFFFFFFFF
  · cases (if_pos hlarge).symm.trans h
  rw [if_neg hlarge] at h
  by_cases hsingle : message.length ≤ maxSingleDataSize
  · cases Option.some.inj ((if_pos hsingle).symm.trans h)
    rw [forall_mem_singleton, encodeDataPdu_length]
    unfold maxSingleDataSize at hsingle
    unfold maxPduSize
    dsimp only
    omega
  · rw [if_neg hsingle] at h
    dsimp only at h
    split at h
    · cases h
    · rename_i first hfirst
      cases Option.some.inj h
      rw [forall_mem_cons]
      constructor
      · unfold encodeDataFirst at hfirst
        split_ifs at hfirst with hfits
        cases Option.some.inj hfirst
        rw [length_append, length_append, writeIdPdu_length, writeVar_length, length_take]
        dsimp only
        unfold maxPduSize
        omega
      · apply dataPdus_length
        unfold maxPduSize
        omega

/-! ### Both layers -/

/-- The messages of one channel, over its own PDUs. -/
theorem channel_run (hid : id < 2 ^ 32) (hidle : r.Idle) {messages : List (List UInt8)}
    {pdus : List (List (List UInt8))}
    (h : List.Forall₂ (fun message split => encodeData id message = some split) messages pdus)
    (hroom : ∀ message ∈ messages, message.length ≤ r.maxSize) :
    (∀ pdu ∈ pdus.flatten, Carries id pdu) ∧
      run MessageReassembler.receive r (pdus.flatten.map fragOf) = .ok (messages, r) := by
  induction h with
  | nil => exact ⟨by simp, rfl⟩
  | @cons message split messages pdus hsplit _ ih =>
    rw [forall_mem_cons] at hroom
    obtain ⟨hcarries, hrun⟩ := ih hroom.2
    obtain ⟨hfirst, hmessage⟩ := encodeData_run hid hsplit
    rw [flatten_cons, map_append, forall_mem_append]
    exact ⟨⟨hfirst, hcarries⟩, run_append (hmessage r hidle hroom.1) hrun⟩

/-- The chunks of PDUs give the PDUs. -/
theorem cut_run {s : Svc.Reassembler} (hidle : s.Idle) {chunks : List (List (List UInt8))} (h : Cut sends chunks)
    (hroom : ∀ send ∈ sends, send.pdu.length ≤ s.maxMessageSize ∧ min send.maxChunk send.pdu.length ≤ s.maxChunk) :
    run Svc.Reassembler.receive s chunks.flatten = .ok (sends.map (·.pdu), s) := by
  induction h with
  | nil => rfl
  | @cons send cut sends chunks hcut _ ih =>
    rw [forall_mem_cons] at hroom
    have hpdu := Svc.encodeChunks_run hcut hroom.1.1 hroom.1.2 hidle
    exact run_append hpdu (ih hroom.2)

theorem ofKey_sends (id : ℕ) (sends : List Send) :
    ofKey id (sends.map fun send => (send.channelId, fragOf send.pdu)) =
      ((sends.filter (·.channelId = id)).map (·.pdu)).map fragOf := by
  rw [ofKey, filter_map, map_map, map_map]
  rfl

theorem dispatch_of_carries {side : Side} {pdu : List UInt8} (h : Carries id pdu) (channels : ℕ → MessageReassembler) :
    dispatch side channels pdu = routed MessageReassembler.receive channels (id, fragOf pdu) := by
  unfold dispatch
  rw [h side]
  rfl

theorem run_dispatch {side : Side} (h : ∀ send ∈ sends, Carries send.channelId send.pdu)
    (channels : ℕ → MessageReassembler) : run (dispatch side) channels (sends.map (·.pdu)) =
      run (routed MessageReassembler.receive) channels (sends.map fun send => (send.channelId, fragOf send.pdu)) := by
  have hpdus : run (fun s (send : Send) => dispatch side s send.pdu) channels sends =
      run (dispatch side) channels (sends.map (·.pdu)) :=
    run_map _ _ _ channels fun _ _ _ => rfl
  rw [← hpdus]
  apply run_map
  exact fun send hsend s => dispatch_of_carries (h send hsend) s

variable {messages : List (ℕ × List UInt8)}

/-- Every message of every channel, over PDUs in any order that keeps each channel's own. -/
theorem dispatch_run {limit : ℕ → ℕ} (hids : ∀ m ∈ messages, m.1 < 2 ^ 32)
    (hroom : ∀ m ∈ messages, m.2.length ≤ limit m.1) (horder : InOrder messages sends) : ∃ emitted,
      run (dispatch side) (fun id => { maxSize := limit id }) (sends.map (·.pdu)) =
        .ok (emitted, fun id => { maxSize := limit id }) ∧
      ∀ id, ofKey id emitted = ofKey id messages := by
  have hchannel : ∀ id, (∀ pdu ∈ (sends.filter (·.channelId = id)).map (·.pdu), Carries id pdu) ∧
      run MessageReassembler.receive { maxSize := limit id }
        (((sends.filter (·.channelId = id)).map (·.pdu)).map fragOf) =
          .ok (ofKey id messages, { maxSize := limit id }) := by
    intro id
    obtain ⟨pdus, hsplit, hpdus⟩ := horder id
    rw [hpdus]
    have hmem : ∀ message ∈ ofKey id messages, (id, message) ∈ messages := by
      intro message hm
      obtain ⟨⟨key, _⟩, hx, rfl⟩ := mem_map.mp hm
      obtain ⟨hx, hkey⟩ := mem_filter.mp hx
      rwa [← of_decide_eq_true hkey]
    by_cases hempty : ofKey id messages = []
    · rw [hempty] at hsplit ⊢
      cases hsplit
      exact ⟨by simp, rfl⟩
    · obtain ⟨message, hm⟩ := exists_mem_of_ne_nil _ hempty
      exact channel_run (hids _ (hmem message hm)) ⟨rfl, rfl⟩ hsplit fun m hm => hroom _ (hmem m hm)
  have hrouted : ∃ emitted, run (routed MessageReassembler.receive) (fun id => { maxSize := limit id })
      (sends.map fun send => (send.channelId, fragOf send.pdu)) = .ok (emitted, fun id => { maxSize := limit id }) ∧
      ∀ id, ofKey id emitted = ofKey id messages := by
    apply run_routed
    intro id
    rw [ofKey_sends]
    exact (hchannel id).2
  obtain ⟨emitted, hrun, hof⟩ := hrouted
  have hcarries : ∀ send ∈ sends, Carries send.channelId send.pdu := by
    intro send hsend
    apply (hchannel send.channelId).1
    exact mem_map_of_mem (mem_filter.mpr ⟨hsend, decide_eq_true rfl⟩)
  exact ⟨emitted, (run_dispatch hcarries _).trans hrun, hof⟩

theorem forall₂_right {α β : Type} {R : α → β → Prop} {l : List α} {l' : List β} (h : List.Forall₂ R l l') :
    ∀ b ∈ l', ∃ a, R a b := by
  induction h with
  | nil => exact fun _ hb => (nomatch hb)
  | cons hab _ ih => exact forall_mem_cons.mpr ⟨⟨_, hab⟩, ih⟩

/-- Every PDU on its way is one of its channel's. -/
theorem InOrder.length (h : InOrder messages sends) : ∀ send ∈ sends, send.pdu.length ≤ maxPduSize := by
  intro send hsend
  obtain ⟨pdus, hsplit, hpdus⟩ := h send.channelId
  have hmem : send.pdu ∈ pdus.flatten := by
    rw [← hpdus]
    exact mem_map_of_mem (mem_filter.mpr ⟨hsend, decide_eq_true rfl⟩)
  obtain ⟨split, hs, hp⟩ := mem_flatten.mp hmem
  obtain ⟨message, hencode⟩ := forall₂_right hsplit split hs
  exact encodeData_length hencode _ hp

theorem cut_exists : ∀ {sends : List Send}, (∀ send ∈ sends, 0 < send.maxChunk ∧ send.pdu.length ≤ maxPduSize) →
    ∃ chunks, Cut sends chunks
  | [], _ => ⟨[], .nil⟩
  | send :: sends, h => by
    rw [forall_mem_cons] at h
    obtain ⟨cut, hcut⟩ := Svc.encodeChunks_some h.1.1 (h.1.2.trans (by decide))
    obtain ⟨chunks, hchunks⟩ := cut_exists h.2
    exact ⟨cut :: chunks, .cons hcut hchunks⟩

/-- **Nothing is lost between the two ends**: the messages of every channel
arrive in order, whatever the interleaving and the chunks; each PDU comes back
as far as it is on the wire; and no chunks make the receiver of the static
channel keep or return more than its limit. -/
theorem transport_lossless :
    (∀ (id : ℕ) (message : List UInt8), message.length ≤ 0xFFFFFFFF →
      ∃ pdus, encodeData id message = some pdus ∧ ∀ pdu ∈ pdus, pdu.length ≤ maxPduSize) ∧
    (∀ (side : Side) (limit : ℕ → ℕ) (maxMessageSize maxChunk : ℕ) (messages : List (ℕ × List UInt8))
      (sends : List Send), (∀ m ∈ messages, m.1 < 2 ^ 32) → (∀ m ∈ messages, m.2.length ≤ limit m.1) →
      InOrder messages sends →
      (∀ send ∈ sends, 0 < send.maxChunk ∧ send.pdu.length ≤ maxMessageSize ∧
        min send.maxChunk send.pdu.length ≤ maxChunk) →
      ∃ chunks emitted, Cut sends chunks ∧
        List.Forall₂ (fun send cut => ∀ chunk ∈ cut, chunk.length ≤ Svc.headerSize + send.maxChunk) sends chunks ∧
        run (receive side) ({ maxMessageSize, maxChunk }, fun id => { maxSize := limit id }) chunks.flatten =
          .ok (emitted, { maxMessageSize, maxChunk }, fun id => { maxSize := limit id }) ∧
        ∀ id, ofKey id emitted = ofKey id messages) ∧
    (∀ (pdu : ClientPdu) (bytes : List UInt8), pdu.Typed → encodeClientPdu pdu = some bytes →
      decodeClientPdu bytes = .ok pdu) ∧
    (∀ (pdu : ServerPdu) (bytes : List UInt8), pdu.Typed → encodeServerPdu pdu = some bytes →
      decodeServerPdu bytes = .ok pdu.onWire) ∧
    ∀ (maxMessageSize maxChunk : ℕ) (chunks : List (List UInt8)),
      let run := Svc.Reassembler.addAll { maxMessageSize, maxChunk } chunks
      run.2.buffer.length ≤ maxMessageSize ∧
      (∀ message, .ok (some message) ∈ run.1 → message.length ≤ maxMessageSize) ∧
      ∀ chunk e, (run.2.add chunk).1 = .error e → (run.2.add chunk).2.Idle := by
  refine ⟨fun id message h => ?_, fun side limit maxMessageSize maxChunk messages sends hids hroom horder hsends => ?_,
    fun _ _ => decode_encodeClient, fun _ _ => decode_encodeServer, fun maxMessageSize maxChunk chunks => ?_⟩
  · obtain ⟨pdus, hpdus⟩ := encodeData_some id h
    exact ⟨pdus, hpdus, encodeData_length hpdus⟩
  · obtain ⟨chunks, hcut⟩ := cut_exists fun send hs => ⟨(hsends send hs).1, horder.length send hs⟩
    obtain ⟨emitted, hrun, hof⟩ := dispatch_run side hids hroom horder
    have hchunks := cut_run (s := { maxMessageSize, maxChunk }) ⟨rfl, rfl⟩ hcut fun send hs => (hsends send hs).2
    exact ⟨chunks, emitted, hcut, hcut.imp fun _ _ => Svc.encodeChunks_length, run_piped hchunks hrun, hof⟩
  · have hfresh : Svc.Reassembler.Bounded { maxMessageSize, maxChunk } :=
      ⟨Nat.zero_le _, fun _ h => (nomatch h), fun _ => rfl⟩
    obtain ⟨hbounded, hmax, hreturned⟩ := Svc.Reassembler.addAll_bounded chunks _ hfresh
    refine ⟨hbounded.fits.trans hmax.le, hreturned, fun chunk e he => ?_⟩
    exact (Svc.Reassembler.add_step hbounded chunk).dropped e he

/-- The priority charges of version 1 are not on the wire. -/
theorem version1_charges_lost :
    ∃ bytes, encodeServerPdu (.capsRequest ⟨version1, defaultPriorityCharges⟩) = some bytes ∧
      decodeServerPdu bytes = .ok (.capsRequest ⟨version1, ⟨0, 0, 0, 0⟩⟩) ∧
      (.capsRequest ⟨version1, ⟨0, 0, 0, 0⟩⟩ : ServerPdu) ≠ .capsRequest ⟨version1, defaultPriorityCharges⟩ :=
  ⟨_, rfl, by decide, by decide⟩

/-- Two channels, the second one's empty message first, in chunks of a byte and of three. -/
theorem transport_lossless_two : ∃ chunks emitted,
    Cut [⟨300, encodeDataPdu ⟨300, []⟩, 1⟩, ⟨7, encodeDataPdu ⟨7, [0xAA]⟩, 3⟩] chunks ∧
      run (receive .client) ({ maxMessageSize := 1600, maxChunk := 1600 }, fun _ => { maxSize := 64 }) chunks.flatten =
          .ok (emitted, { maxMessageSize := 1600, maxChunk := 1600 }, fun _ => { maxSize := 64 }) ∧
      ofKey 7 emitted = [[0xAA]] := by
  have horder : InOrder [(7, [0xAA]), (300, [])]
      [⟨300, encodeDataPdu ⟨300, []⟩, 1⟩, ⟨7, encodeDataPdu ⟨7, [0xAA]⟩, 3⟩] := by
    intro id
    by_cases h7 : id = 7
    · subst h7
      exact ⟨[[encodeDataPdu ⟨7, [0xAA]⟩]], .cons rfl .nil, rfl⟩
    · by_cases h300 : id = 300
      · subst h300
        exact ⟨[[encodeDataPdu ⟨300, []⟩]], .cons rfl .nil, rfl⟩
      · refine ⟨[], ?_, ?_⟩
        · simp [ofKey, Ne.symm h7, Ne.symm h300]
        · simp [Ne.symm h7, Ne.symm h300]
  obtain ⟨chunks, emitted, hcut, -, hrun, hof⟩ := transport_lossless.2.1 .client (fun _ => 64) 1600 1600
    [(7, [0xAA]), (300, [])] _ (by decide) (by decide) horder (by decide)
  exact ⟨chunks, emitted, hcut, hrun, hof 7⟩

end Drdynvc
end Channels
end Farland
