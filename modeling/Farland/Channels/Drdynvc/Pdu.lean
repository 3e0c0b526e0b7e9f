/-
# Dynamic virtual channel messages

The PDU codecs of the "drdynvc" static channel (`channels/drdynvc.hpp`,
`channels/drdynvc.cpp`), the fragmentation of a message into data PDUs and
its reassembly. A listener name carries the checks of its encoder
(`ChannelName`), so a Create Request always encodes; an encoder that checks
more than its types do is `none` when the check fails.

Key theorem: `dataPdus_decode`.
-/
import Farland.Base.Reader

namespace Farland
namespace Channels
namespace Drdynvc

open List

/-- Maximum DVC PDU size. -/
def maxPduSize : ℕ := 1600
/-- Largest message sent as one data PDU. -/
def maxSingleDataSize : ℕ := 1590
def maxChannelNameSize : ℕ := 256

/-! ### Constants -/

namespace Cmd

def create : ℕ := 0x01
def dataFirst : ℕ := 0x02
def data : ℕ := 0x03
def close : ℕ := 0x04
def capabilities : ℕ := 0x05
def dataFirstCompressed : ℕ := 0x06
def dataCompressed : ℕ := 0x07
def softSyncRequest : ℕ := 0x08
def softSyncResponse : ℕ := 0x09

end Cmd

def version1 : ℕ := 1
def version2 : ℕ := 2
def version3 : ℕ := 3

/-- PriorityCharge0..3. -/
structure PriorityCharges where
  charge0 : ℕ
  charge1 : ℕ
  charge2 : ℕ
  charge3 : ℕ
  deriving DecidableEq

def defaultPriorityCharges : PriorityCharges := ⟨936, 3276, 9362, 21845⟩

/-- `soft_sync_flag::channel_list_present`. -/
def channelListPresent : ℕ := 0x02

/-! ### PDUs -/

/-- A listener name as a Create Request carries it: 1 to 256 characters, no NUL. -/
structure ChannelName where
  chars : List UInt8
  nonempty : chars ≠ []
  fits : chars.length ≤ maxChannelNameSize
  noNul : 0 ∉ chars
  deriving DecidableEq

/-- The name "a". -/
def ChannelName.a : ChannelName := ⟨[0x61], by decide, by decide, by decide⟩

structure CapsRequest where
  version : ℕ
  priorityCharges : PriorityCharges
  deriving DecidableEq

structure CapsResponse where
  version : ℕ
  deriving DecidableEq

structure CreateRequest where
  channelId : ℕ
  priority : Fin 4
  name : ChannelName
  deriving DecidableEq

/-- CreationStatus is an HRESULT: negative means failure. -/
structure CreateResponse where
  channelId : ℕ
  creationStatus : ℤ
  deriving DecidableEq

/-- `length` is the message total. -/
structure DataFirst where
  channelId : ℕ
  length : ℕ
  data : List UInt8
  deriving DecidableEq

structure Data where
  channelId : ℕ
  data : List UInt8
  deriving DecidableEq

structure Close where
  channelId : ℕ
  deriving DecidableEq

structure SoftSyncChannelList where
  tunnelType : ℕ
  channelIds : List ℕ
  deriving DecidableEq

structure SoftSyncRequest where
  flags : ℕ
  numberOfTunnels : ℕ
  channelLists : List SoftSyncChannelList
  deriving DecidableEq

/-- The PDUs that are the same in both directions: data and close. -/
inductive CommonPdu where
  | dataFirst (pdu : DataFirst)
  | data (pdu : Data)
  | dataFirstCompressed (pdu : DataFirst)
  | dataCompressed (pdu : Data)
  | close (pdu : Close)
  deriving DecidableEq

/-- What a client sends. -/
inductive ClientPdu where
  | capsResponse (pdu : CapsResponse)
  | createResponse (pdu : CreateResponse)
  | common (pdu : CommonPdu)
  | softSyncResponse (tunnels : List ℕ)
  deriving DecidableEq

/-- What a server sends. -/
inductive ServerPdu where
  | capsRequest (pdu : CapsRequest)
  | createRequest (pdu : CreateRequest)
  | common (pdu : CommonPdu)
  | softSyncRequest (pdu : SoftSyncRequest)
  deriving DecidableEq

/-! ### Variable-length fields -/

/-- The cbId/Len code of the smallest field that holds `value`. -/
def sizeCode (value : ℕ) : ℕ :=
  if value ≤ 0xFF then 0 else if value ≤ 0xFFFF then 1 else 2

/-- Bytes of a field with the given code. -/
def fieldSize : ℕ → ℕ
  | 0 => 1
  | 1 => 2
  | _ => 4

open Reader

def readVar (code : ℕ) : Parse ℕ :=
  match code with
  | 0 => u8
  | 1 => u16le
  | 2 => u32le
  | _ => do
    let offset ← at_
    Parse.fail .invalidValue "drdynvc field size code 3" offset

def writeVar (value : ℕ) : List UInt8 :=
  match sizeCode value with
  | 0 => Writer.u8 value
  | 1 => Writer.u16le value
  | _ => Writer.u32le value

/-! ### Decoding -/

/-- The DVC header byte: cbId (bits 0-1), Sp/Pri/Len (bits 2-3), Cmd (bits 4-7). -/
structure Header where
  command : ℕ
  sp : Fin 4
  cbId : Fin 4
  deriving DecidableEq

def headerByte (command : ℕ) (sp cbId : ℕ) : ℕ := command <<< 4 ||| sp <<< 2 ||| cbId

def readHeader : Parse Header := do
  let byte ← u8
  pure ⟨byte >>> 4, Fin.ofNat 4 (byte >>> 2), Fin.ofNat 4 byte⟩

/-- The characters up to the NUL, after those of `name`. -/
def readNameChars (name : List UInt8) (offset : ℕ) : List UInt8 → Result (List UInt8 × Reader)
  | [] => fail .truncated "unexpected end of input" offset
  | c :: rest =>
    if c = 0 then .ok (name, ⟨rest, offset + 1⟩)
    else if name.length = maxChannelNameSize then
      fail .limitExceeded "DVC channel name too long" (offset + 1)
    else readNameChars (name ++ [c]) (offset + 1) rest

theorem readNameChars_ok : ∀ (input name : List UInt8) (offset : ℕ) {out : List UInt8} {r : Reader},
    readNameChars name offset input = .ok (out, r) → name.length ≤ maxChannelNameSize → 0 ∉ name →
      out.length ≤ maxChannelNameSize ∧ 0 ∉ out
  | [], name, offset, out, r, h, _, _ => by cases h
  | c :: rest, name, offset, out, r, h, hl, hz => by
    unfold readNameChars at h
    by_cases hc : c = 0
    · rw [if_pos hc] at h
      cases h
      exact ⟨hl, hz⟩
    · rw [if_neg hc] at h
      by_cases hf : name.length = maxChannelNameSize
      · rw [if_pos hf] at h
        cases h
      · rw [if_neg hf] at h
        apply readNameChars_ok rest (name ++ [c]) (offset + 1) h
        · rw [length_append, length_singleton]
          omega
        · rw [mem_append, mem_singleton]
          rintro (h' | h')
          exacts [hz h', hc h'.symm]

/-- A null-terminated ANSI string. -/
def readChannelName : Parse ChannelName := fun r =>
  match h : readNameChars [] r.offset r.rest with
  | .error e => .error e
  | .ok (name, r') =>
    if hn : name = [] then fail .invalidValue "empty DVC channel name" r'.offset
    else
      have hk := readNameChars_ok r.rest [] r.offset h (Nat.zero_le _) not_mem_nil
      .ok (⟨name, hn, hk.1, hk.2⟩, r')

def readSoftSyncChannelList : Parse SoftSyncChannelList := do
  let tunnelType ← u32le
  let count ← u16le
  let r ← get
  if count * 4 > r.remaining then
    Parse.fail .truncated "Soft-Sync channel list exceeds the PDU" r.offset
  else
    let channelIds ← readMany u32le count
    pure ⟨tunnelType, channelIds⟩

def readSoftSyncRequest : Parse SoftSyncRequest := do
  skip 1
  let length ← u32le
  let r ← get
  -- Length covers itself, Flags, NumberOfTunnels and the channel lists
  if length < 8 ∨ length - 4 ≠ r.remaining then
    Parse.fail .invalidLength "Soft-Sync Request length disagrees with the PDU" r.offset
  else
    let flags ← u16le
    let numberOfTunnels ← u16le
    let channelLists ←
      if flags &&& channelListPresent ≠ 0 then readMany readSoftSyncChannelList numberOfTunnels else pure []
    expectEnd "Soft-Sync Request"
    pure ⟨flags, numberOfTunnels, channelLists⟩

def readSoftSyncResponse : Parse (List ℕ) := do
  skip 1
  let count ← u32le
  let r ← get
  if count > r.remaining / 4 ∨ count * 4 ≠ r.remaining then
    Parse.fail .invalidLength "Soft-Sync Response tunnel count disagrees with the PDU" r.offset
  else readMany u32le count

/-- `Reader::rest`: every unread byte. -/
def takeRest : Parse (List UInt8) := fun r => .ok (r.rest, ⟨[], r.offset + r.rest.length⟩)

variable (header : Header)

def decodeDataFirst : Parse DataFirst := do
  let id ← readVar header.cbId
  let length ← readVar header.sp
  let data ← takeRest
  pure ⟨id, length, data⟩

def decodeData : Parse Data := do
  let id ← readVar header.cbId
  let data ← takeRest
  pure ⟨id, data⟩

def decodeClose : Parse Close := do
  let id ← readVar header.cbId
  expectEnd "DVC Close"
  pure ⟨id⟩

def decodeCommon : Parse CommonPdu :=
  if header.command = Cmd.dataFirstCompressed then CommonPdu.dataFirstCompressed <$> decodeDataFirst header
  else if header.command = Cmd.dataFirst then do
    let pdu ← decodeDataFirst header
    let offset ← at_
    if pdu.data.length > pdu.length then
      Parse.fail .invalidLength "DVC Data First holds more than its Length" offset
    else pure (.dataFirst pdu)
  else if header.command = Cmd.dataCompressed then CommonPdu.dataCompressed <$> decodeData header
  else if header.command = Cmd.data then CommonPdu.data <$> decodeData header
  else if header.command = Cmd.close then CommonPdu.close <$> decodeClose header
  else Parse.fail .invalidValue "unknown or misdirected drdynvc command" 0

def decodeCapsResponse : Parse CapsResponse := do
  skip 1
  let version ← u16le
  expectEnd "DVC Capabilities Response"
  pure ⟨version⟩

def decodeCreateResponse : Parse CreateResponse := do
  let channelId ← readVar header.cbId
  let status ← u32le
  expectEnd "DVC Create Response"
  pure ⟨channelId, toSigned 32 status⟩

def readPriorityCharges (version : ℕ) : Parse PriorityCharges :=
  if version = version2 ∨ version = version3 then do
    let charge0 ← u16le
    let charge1 ← u16le
    let charge2 ← u16le
    let charge3 ← u16le
    pure ⟨charge0, charge1, charge2, charge3⟩
  else if version ≠ version1 then Parse.fail .invalidValue "unknown DVC capabilities version" 2
  else pure ⟨0, 0, 0, 0⟩

def decodeCapsRequest : Parse CapsRequest := do
  skip 1
  let version ← u16le
  let priorityCharges ← readPriorityCharges version
  expectEnd "DVC Capabilities Request"
  pure ⟨version, priorityCharges⟩

def decodeCreateRequest : Parse CreateRequest := do
  let channelId ← readVar header.cbId
  let name ← readChannelName
  expectEnd "DVC Create Request"
  pure ⟨channelId, header.sp, name⟩

def clientPdu : Parse ClientPdu := do
  let header ← readHeader
  if header.command = Cmd.capabilities then ClientPdu.capsResponse <$> decodeCapsResponse
  else if header.command = Cmd.create then ClientPdu.createResponse <$> decodeCreateResponse header
  else if header.command = Cmd.softSyncResponse then ClientPdu.softSyncResponse <$> readSoftSyncResponse
  else ClientPdu.common <$> decodeCommon header

def serverPdu : Parse ServerPdu := do
  let header ← readHeader
  if header.command = Cmd.capabilities then ServerPdu.capsRequest <$> decodeCapsRequest
  else if header.command = Cmd.create then ServerPdu.createRequest <$> decodeCreateRequest header
  else if header.command = Cmd.softSyncRequest then ServerPdu.softSyncRequest <$> readSoftSyncRequest
  else ServerPdu.common <$> decodeCommon header

/-- Decodes one client-to-server drdynvc message. -/
def decodeClientPdu (message : List UInt8) : Result ClientPdu := (clientPdu ⟨message, 0⟩).map (·.1)

/-- Decodes one server-to-client drdynvc message. -/
def decodeServerPdu (message : List UInt8) : Result ServerPdu := (serverPdu ⟨message, 0⟩).map (·.1)

/-! ### Encoding -/

def writeIdPdu (command sp channelId : ℕ) : List UInt8 :=
  Writer.u8 (headerByte command sp (sizeCode channelId)) ++ writeVar channelId

def encodeCapsRequest (pdu : CapsRequest) : Option (List UInt8) :=
  if version1 ≤ pdu.version ∧ pdu.version ≤ version3 then
    some (Writer.u8 (headerByte Cmd.capabilities 0 0) ++ Writer.u8 0 ++ Writer.u16le pdu.version ++
      if version2 ≤ pdu.version then
        Writer.u16le pdu.priorityCharges.charge0 ++ Writer.u16le pdu.priorityCharges.charge1 ++
          Writer.u16le pdu.priorityCharges.charge2 ++ Writer.u16le pdu.priorityCharges.charge3
      else [])
  else none

def encodeCapsResponse (pdu : CapsResponse) : List UInt8 :=
  Writer.u8 (headerByte Cmd.capabilities 0 0) ++ Writer.u8 0 ++ Writer.u16le pdu.version

def encodeCreateRequest (pdu : CreateRequest) : List UInt8 :=
  writeIdPdu Cmd.create pdu.priority pdu.channelId ++ pdu.name.chars ++ Writer.u8 0

def encodeCreateResponse (pdu : CreateResponse) : List UInt8 :=
  writeIdPdu Cmd.create 0 pdu.channelId ++ Writer.u32le (toUnsigned 32 pdu.creationStatus)

def encodeDataFirst (pdu : DataFirst) : Option (List UInt8) :=
  if pdu.data.length ≤ pdu.length then
    some (writeIdPdu Cmd.dataFirst (sizeCode pdu.length) pdu.channelId ++ writeVar pdu.length ++ pdu.data)
  else none

def encodeDataPdu (pdu : Data) : List UInt8 := writeIdPdu Cmd.data 0 pdu.channelId ++ pdu.data

def encodeClose (pdu : Close) : List UInt8 := writeIdPdu Cmd.close 0 pdu.channelId

/-! ### Fragmentation and reassembly -/

/-- The data PDUs of what is left of a message, `block` bytes each. -/
def dataPdus (channelId block : ℕ) : ℕ → List UInt8 → List (List UInt8)
  | 0, _ => []
  | fuel + 1, rest =>
    if rest = [] then []
    else encodeDataPdu ⟨channelId, rest.take block⟩ :: dataPdus channelId block fuel (rest.drop block)

/-- One data PDU for up to 1590 bytes, otherwise a first PDU with the total
length and as many data PDUs as needed. -/
def encodeData (channelId : ℕ) (message : List UInt8) : Option (List (List UInt8)) :=
  if message.length > 0xFFFFFFFF then none
  else if message.length ≤ maxSingleDataSize then some [encodeDataPdu ⟨channelId, message⟩]
  else
    let total := message.length
    let idSize := fieldSize (sizeCode channelId)
    let firstBlock := maxPduSize - (1 + idSize + fieldSize (sizeCode total))
    let block := maxPduSize - (1 + idSize)
    let offset := min firstBlock total
    match encodeDataFirst ⟨channelId, total, message.take offset⟩ with
    | none => none
    -- each turn sends at least one byte, so `total` turns are enough
    | some first => some (first :: dataPdus channelId block total (message.drop offset))

/-- Reassembly of one channel's fragmented messages. -/
structure MessageReassembler where
  maxSize : ℕ
  total : Option ℕ := none
  buffer : List UInt8 := []
  deriving DecidableEq

namespace MessageReassembler

variable (r : MessageReassembler)

def reset : MessageReassembler := { r with total := none, buffer := [] }

/-- The total length and the first block of a message. -/
def first (length : ℕ) (block : List UInt8) : Result (Option (List UInt8)) × MessageReassembler :=
  if r.total.isSome then (fail .invalidValue "DVC Data First inside a fragmented message" 0, r.reset)
  else if length > r.maxSize then (fail .limitExceeded "DVC message too large" 0, r)
  else if block.length > length then
    (fail .invalidLength "DVC Data First block exceeds the message length" 0, r)
  else if block.length = length then (.ok (some block), r)
  else (.ok none, { r with total := some length, buffer := block })

/-- The next block, or a whole message. -/
def next (block : List UInt8) : Result (Option (List UInt8)) × MessageReassembler :=
  match r.total with
  | none =>
    if block.length > r.maxSize then (fail .limitExceeded "DVC message too large" 0, r)
    else (.ok (some block), r)
  | some total =>
    if block.length > total - r.buffer.length then
      (fail .invalidLength "DVC data overruns the message length" 0, r.reset)
    else if (r.buffer ++ block).length < total then (.ok none, { r with buffer := r.buffer ++ block })
    else (.ok (some (r.buffer ++ block)), { r with total := none, buffer := [] })

end MessageReassembler

/-! ### Reading a field back -/

theorem sizeCode_lt (v : ℕ) : sizeCode v < 4 := by
  unfold sizeCode
  split_ifs <;> decide

theorem readVar_writeVar (v : ℕ) (rest : List UInt8) (o : ℕ) (h : v < 2 ^ 32) :
    ∃ o', readVar (sizeCode v) ⟨writeVar v ++ rest, o⟩ = .ok (v, ⟨rest, o'⟩) := by
  by_cases h1 : v ≤ 0xFF
  · have hc : sizeCode v = 0 := if_pos h1
    simp only [writeVar, hc]
    exact ⟨_, u8_append v rest o (by omega)⟩
  by_cases h2 : v ≤ 0xFFFF
  · have hc : sizeCode v = 1 := by rw [sizeCode, if_neg h1, if_pos h2]
    simp only [writeVar, hc]
    exact ⟨_, u16le_append v rest o (by omega)⟩
  · have hc : sizeCode v = 2 := by rw [sizeCode, if_neg h1, if_neg h2]
    simp only [writeVar, hc]
    exact ⟨_, u32le_append v rest o h⟩

theorem headerByte_fields : ∀ c < 16, ∀ s < 4, ∀ b < 4, headerByte c s b < 256 ∧ headerByte c s b >>> 4 = c ∧
      Fin.ofNat 4 (headerByte c s b >>> 2) = Fin.ofNat 4 s ∧ Fin.ofNat 4 (headerByte c s b) = Fin.ofNat 4 b := by
  decide

theorem readHeader_u8 {c s b : ℕ} (rest : List UInt8) (o : ℕ) (hc : c < 16) (hs : s < 4) (hb : b < 4) :
    readHeader ⟨Writer.u8 (headerByte c s b) ++ rest, o⟩ = .ok (⟨c, Fin.ofNat 4 s, Fin.ofNat 4 b⟩, ⟨rest, o + 1⟩) := by
  obtain ⟨hlt, h4, h2, h0⟩ := headerByte_fields c hc s hs b hb
  unfold readHeader
  refine (Parse.bind_ok (u8_append (headerByte c s b) rest o hlt)).trans ?_
  rw [h4, h2, h0]
  rfl

theorem readHeader_writeIdPdu {c s : ℕ} (id : ℕ) (rest : List UInt8) (o : ℕ) (hc : c < 16) (hs : s < 4) :
    readHeader ⟨writeIdPdu c s id ++ rest, o⟩ =
      .ok (⟨c, Fin.ofNat 4 s, Fin.ofNat 4 (sizeCode id)⟩, ⟨writeVar id ++ rest, o + 1⟩) := by
  exact readHeader_u8 _ o hc hs (sizeCode_lt id)

theorem val_ofNat_sizeCode (v : ℕ) : ((Fin.ofNat 4 (sizeCode v) : Fin 4) : ℕ) = sizeCode v :=
  Nat.mod_eq_of_lt (sizeCode_lt v)

theorem readNameChars_append : ∀ (cs name rest : List UInt8) (o : ℕ), 0 ∉ cs →
    (name ++ cs).length ≤ maxChannelNameSize →
      ∃ o', readNameChars name o (cs ++ 0 :: rest) = .ok (name ++ cs, ⟨rest, o'⟩)
  | [], name, rest, o, _, _ => ⟨o + 1, by simp [readNameChars]⟩
  | c :: cs, name, rest, o, hz, hl => by
    have hc : c ≠ 0 := fun h => hz (h ▸ mem_cons_self)
    have hn : name.length ≠ maxChannelNameSize := by
      rw [length_append, length_cons] at hl
      omega
    have hl' : (name ++ [c] ++ cs).length ≤ maxChannelNameSize := by rwa [append_assoc]
    obtain ⟨o', h⟩ := readNameChars_append cs (name ++ [c]) rest (o + 1) (fun h => hz (mem_cons_of_mem _ h)) hl'
    refine ⟨o', ?_⟩
    rw [cons_append, readNameChars, if_neg hc, if_neg hn, h, append_assoc]
    rfl

theorem readChannelName_append (name : ChannelName) (rest : List UInt8) (o : ℕ) :
    ∃ o', readChannelName ⟨name.chars ++ 0 :: rest, o⟩ = .ok (name, ⟨rest, o'⟩) := by
  obtain ⟨o', h⟩ := readNameChars_append name.chars [] rest o name.noNul name.fits
  refine ⟨o', ?_⟩
  unfold readChannelName
  split
  · rename_i e he
    rw [h] at he
    cases he
  · rename_i out r he
    rw [h] at he
    cases he
    exact dif_neg name.nonempty

/-! ### The client reads back what the server sends -/

theorem decodeServerPdu_eq {m : List UInt8} {pdu : ServerPdu} {r : Reader} (h : serverPdu ⟨m, 0⟩ = .ok (pdu, r)) :
    decodeServerPdu m = .ok pdu := by
  rw [decodeServerPdu, h]
  rfl

theorem Parse.map_ok {α β : Type} {x : Parse α} (f : α → β) {r r' : Reader} {a : α} (h : x r = .ok (a, r')) :
    (f <$> x) r = .ok (f a, r') := by
  change (Except.bind (x r) fun p => .ok (f p.1, p.2)) = _
  rw [h]
  rfl

theorem decodeServerPdu_createRequest (pdu : CreateRequest) (h : pdu.channelId < 2 ^ 32) :
    decodeServerPdu (encodeCreateRequest pdu) = .ok (.createRequest pdu) := by
  obtain ⟨o, ho⟩ := readVar_writeVar pdu.channelId (pdu.name.chars ++ [0]) 1 h
  obtain ⟨o', ho'⟩ := readChannelName_append pdu.name [] o
  have hsp : Fin.ofNat 4 (pdu.priority : ℕ) = pdu.priority := Fin.ext (Nat.mod_eq_of_lt pdu.priority.isLt)
  rw [← val_ofNat_sizeCode] at ho
  apply decodeServerPdu_eq (r := ⟨[], o'⟩)
  rw [encodeCreateRequest, append_assoc, serverPdu,
    Parse.bind_ok (readHeader_writeIdPdu _ _ 0 (by decide) pdu.priority.isLt), hsp]
  apply Parse.map_ok
  refine (Parse.bind_ok ho).trans ((Parse.bind_ok ho').trans ?_)
  rfl

theorem decodeServerPdu_close (pdu : Close) (h : pdu.channelId < 2 ^ 32) :
    decodeServerPdu (encodeClose pdu) = .ok (.common (.close pdu)) := by
  obtain ⟨o, ho⟩ := readVar_writeVar pdu.channelId [] 1 h
  rw [← val_ofNat_sizeCode] at ho
  apply decodeServerPdu_eq (r := ⟨[], o⟩)
  rw [encodeClose, ← append_nil (writeIdPdu _ _ _), serverPdu,
    Parse.bind_ok (readHeader_writeIdPdu _ _ 0 (by decide) (by decide))]
  apply Parse.map_ok (x := decodeCommon _)
  apply Parse.map_ok (x := decodeClose _)
  refine (Parse.bind_ok ho).trans ?_
  rfl

theorem decodeServerPdu_data (pdu : Data) (h : pdu.channelId < 2 ^ 32) :
    decodeServerPdu (encodeDataPdu pdu) = .ok (.common (.data pdu)) := by
  obtain ⟨o, ho⟩ := readVar_writeVar pdu.channelId pdu.data 1 h
  rw [← val_ofNat_sizeCode] at ho
  apply decodeServerPdu_eq (r := ⟨[], o + pdu.data.length⟩)
  rw [encodeDataPdu, serverPdu, Parse.bind_ok (readHeader_writeIdPdu _ _ 0 (by decide) (by decide))]
  apply Parse.map_ok (x := decodeCommon _)
  apply Parse.map_ok (x := decodeData _)
  exact Parse.bind_ok ho

theorem decodeServerPdu_dataFirst {pdu : DataFirst} {m : List UInt8} (hm : encodeDataFirst pdu = some m)
    (hid : pdu.channelId < 2 ^ 32) (hl : pdu.length < 2 ^ 32) :
    decodeServerPdu m = .ok (.common (.dataFirst pdu)) := by
  unfold encodeDataFirst at hm
  by_cases hd : pdu.data.length ≤ pdu.length
  · rw [if_pos hd, Option.some.injEq] at hm
    obtain ⟨o, ho⟩ := readVar_writeVar pdu.channelId (writeVar pdu.length ++ pdu.data) 1 hid
    obtain ⟨o', ho'⟩ := readVar_writeVar pdu.length pdu.data o hl
    rw [← val_ofNat_sizeCode] at ho ho'
    apply decodeServerPdu_eq (r := ⟨[], o' + pdu.data.length⟩)
    rw [← hm, append_assoc, serverPdu, Parse.bind_ok (readHeader_writeIdPdu _ _ 0 (by decide) (sizeCode_lt _))]
    apply Parse.map_ok (x := decodeCommon _)
    have hread : decodeDataFirst ⟨Cmd.dataFirst, Fin.ofNat 4 (sizeCode pdu.length),
        Fin.ofNat 4 (sizeCode pdu.channelId)⟩ ⟨writeVar pdu.channelId ++ (writeVar pdu.length ++ pdu.data), 0 + 1⟩ =
          .ok (pdu, ⟨[], o' + pdu.data.length⟩) :=
      (Parse.bind_ok ho).trans (Parse.bind_ok ho')
    refine (Parse.bind_ok hread).trans ?_
    rw [Parse.bind_ok (a := o' + pdu.data.length) rfl, if_neg (by omega)]
    rfl
  · rw [if_neg hd] at hm
    cases hm

theorem readPriorityCharges_append (version : ℕ) (c : PriorityCharges) (o : ℕ)
    (h1 : version1 ≤ version) (h3 : version ≤ version3) :
    ∃ c' o', readPriorityCharges version ⟨if version2 ≤ version then
      Writer.u16le c.charge0 ++ Writer.u16le c.charge1 ++ Writer.u16le c.charge2 ++ Writer.u16le c.charge3
        else [], o⟩ = .ok (c', ⟨[], o'⟩) := by
  unfold readPriorityCharges version2 version3 version1 at *
  by_cases hv : version = 2 ∨ version = 3
  · rw [if_pos hv, if_pos (by omega : 2 ≤ version)]
    exact ⟨_, _, (Parse.bind_ok (readLe_append_mod 2 _ _ _)).trans <|
      (Parse.bind_ok (readLe_append_mod 2 _ _ _)).trans <| Parse.bind_ok (readLe_append_mod 2 _ _ _)⟩
  · rw [if_neg hv, if_neg (by omega : ¬ version ≠ 1), if_neg (by omega : ¬ 2 ≤ version)]
    exact ⟨_, _, rfl⟩

theorem decodeServerPdu_capsRequest {pdu : CapsRequest} {m : List UInt8} (hm : encodeCapsRequest pdu = some m) :
    ∃ p, decodeServerPdu m = .ok (.capsRequest p) := by
  unfold encodeCapsRequest at hm
  by_cases hv : version1 ≤ pdu.version ∧ pdu.version ≤ version3
  · rw [if_pos hv, Option.some.injEq] at hm
    obtain ⟨c', o', hc⟩ := readPriorityCharges_append pdu.version pdu.priorityCharges 4 hv.1 hv.2
    have hlt : pdu.version < 65536 := lt_of_le_of_lt hv.2 (by decide)
    refine ⟨⟨pdu.version, c'⟩, decodeServerPdu_eq (r := ⟨[], o'⟩) ?_⟩
    rw [← hm, append_assoc, append_assoc, serverPdu,
      Parse.bind_ok (readHeader_u8 _ 0 (by decide) (by decide) (by decide))]
    apply Parse.map_ok (x := decodeCapsRequest)
    refine (Parse.bind_ok (skip_append (n := 1) (Writer.u8 0) _ 1 rfl)).trans ?_
    refine (Parse.bind_ok (u16le_append pdu.version _ 2 hlt)).trans ?_
    refine (Parse.bind_ok hc).trans ?_
    rfl
  · rw [if_neg hv] at hm
    cases hm

/-- A message that is data of the channel `id`. -/
def IsDataOf (id : ℕ) (m : List UInt8) : Prop :=
  (∃ d, decodeServerPdu m = .ok (.common (.data ⟨id, d⟩))) ∨
    ∃ n d, decodeServerPdu m = .ok (.common (.dataFirst ⟨id, n, d⟩))

theorem dataPdus_decode (id block : ℕ) (hid : id < 2 ^ 32) : ∀ (fuel : ℕ) (rest : List UInt8),
    ∀ m ∈ dataPdus id block fuel rest, IsDataOf id m
  | 0, _, _, hm => by cases hm
  | fuel + 1, rest, m, hm => by
    unfold dataPdus at hm
    by_cases hr : rest = []
    · rw [if_pos hr] at hm
      cases hm
    · rw [if_neg hr, mem_cons] at hm
      rcases hm with rfl | hm
      · exact .inl ⟨_, decodeServerPdu_data ⟨id, rest.take block⟩ hid⟩
      · exact dataPdus_decode id block hid fuel _ m hm

/-- **Everything `encodeData` sends decodes to data of its channel.** -/
theorem encodeData_decode {id : ℕ} {message : List UInt8} {pdus : List (List UInt8)} (hid : id < 2 ^ 32)
    (h : encodeData id message = some pdus) : ∀ m ∈ pdus, IsDataOf id m := by
  unfold encodeData at h
  by_cases h1 : message.length > 0xFFFFFFFF
  · rw [if_pos h1] at h
    cases h
  rw [if_neg h1] at h
  by_cases h2 : message.length ≤ maxSingleDataSize
  · rw [if_pos h2, Option.some.injEq] at h
    subst h
    intro m hm
    rw [mem_singleton] at hm
    subst hm
    exact .inl ⟨message, decodeServerPdu_data ⟨id, message⟩ hid⟩
  · rw [if_neg h2] at h
    dsimp only at h
    split at h
    · cases h
    · rename_i first hfirst
      rw [Option.some.injEq] at h
      subst h
      intro m hm
      rcases mem_cons.mp hm with rfl | hm
      · exact .inr ⟨_, _, decodeServerPdu_dataFirst hfirst hid (Nat.lt_of_not_le h1)⟩
      · exact dataPdus_decode id _ hid _ _ m hm

end Drdynvc
end Channels
end Farland
