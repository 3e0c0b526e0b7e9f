/-
# The dynamic virtual channel server

`DvcServer` of `channels/dvc_server.cpp`: the capabilities exchange, the
channels by id with their state and their reassembler, the ids opened before
the exchange is over, the messages to send and the events for the caller. A
failed assertion is `none`; an error is kept and returned by every later
`receive`. The decompressor a configuration supplies is a parameter: a state,
a fresh one for each channel.

Key theorem: `allocateId_free`.
-/
import Farland.Channels.Drdynvc.Pdu
import Mathlib.Data.List.AList

namespace Farland
namespace Channels
namespace Drdynvc

/-- A decompressor with its history between calls. -/
structure Decompression (D : Type) where
  fresh : D
  decompress : D → List UInt8 → Result (List UInt8) × D

def defaultMaxDvcMessageSize : ℕ := 16 * 1024 * 1024

structure DvcServerConfig (D : Type) where
  maxVersion : ℕ := version3
  priorityCharges : PriorityCharges := defaultPriorityCharges
  maxMessageSize : ℕ := defaultMaxDvcMessageSize
  makeDecompressor : Option (Decompression D) := none

structure DvcChannelOptions where
  priority : ℕ := 0
  maxMessageSize : Option ℕ := none
  deriving DecidableEq

inductive DvcEvent where
  | capabilitiesReady (version : ℕ)
  | channelOpened (id : ℕ) (name : ChannelName)
  | channelOpenFailed (id : ℕ) (name : ChannelName) (status : ℤ)
  | channelData (id : ℕ) (data : List UInt8)
  | channelClosed (id : ℕ)
  deriving DecidableEq

inductive State where
  | idle
  | waitingCaps
  | ready
  deriving DecidableEq

inductive ChannelState where
  | pending
  | opening
  | opened
  deriving DecidableEq

structure Channel (D : Type) where
  name : ChannelName
  priority : Fin 4
  state : ChannelState
  reassembler : MessageReassembler
  decompressor : Option D := none

structure DvcServer (D : Type) where
  config : DvcServerConfig D
  state : State := .idle
  offered : ℕ := 0
  version : Option ℕ := none
  nextId : ℕ := 1
  channels : AList (fun _ : ℕ => Channel D) := ∅
  pending : List ℕ := []
  output : List (List UInt8) := []
  events : List DvcEvent := []
  error : Option Error := none

variable {D : Type}

namespace DvcServer

/-- The constructor. -/
def create (config : DvcServerConfig D) : Option (DvcServer D) :=
  if version1 ≤ config.maxVersion ∧ config.maxVersion ≤ version3 then some { config := config } else none

variable (s : DvcServer D)

/-- Queues the Capabilities Request. -/
def start : Option (DvcServer D) :=
  if s.state = .idle then
    -- a version 3 manager must accept compressed data
    let offered :=
      if s.config.makeDecompressor.isSome then s.config.maxVersion else min s.config.maxVersion version2
    match encodeCapsRequest ⟨offered, s.config.priorityCharges⟩ with
    | none => none
    | some w => some { s with offered := offered, output := s.output ++ [w], state := .waitingCaps }
  else none

variable (id : ℕ)

/-- The next id of the allocation order, which wraps after 2^32 - 1. -/
def nextIdAfter : ℕ := if id = 0xFFFFFFFF then 1 else id + 1

/-- The first free id from `nextId` on, and the one to try after it. -/
def allocateFrom (channels : AList (fun _ : ℕ => Channel D)) : ℕ → ℕ → Option (ℕ × ℕ)
  | 0, _ => none
  | fuel + 1, id =>
    if id ∈ channels then allocateFrom channels fuel (nextIdAfter id) else some (id, nextIdAfter id)

/-- One more try than there are channels always finds a free id (`allocateId_free`). -/
def allocateId : Option (ℕ × DvcServer D) :=
  if s.channels.entries.length < 0xFFFFFFFF then
    match allocateFrom s.channels (s.channels.entries.length + 1) s.nextId with
    | none => none
    | some (id, next) => some (id, { s with nextId := next })
  else none

def setChannel (channel : Channel D) : DvcServer D :=
  { s with channels := s.channels.insert id channel }

def eraseChannel : DvcServer D := { s with channels := s.channels.erase id }

def sendCreate (channel : Channel D) : DvcServer D :=
  { s.setChannel id { channel with state := .opening } with
    output := s.output ++ [encodeCreateRequest ⟨id, channel.priority, channel.name⟩] }

/-- Requests a channel to the client listener `name` and returns its id. -/
def open_ (name : List UInt8) (options : DvcChannelOptions) : Option (ℕ × DvcServer D) :=
  if hn : (name ≠ [] ∧ name.length ≤ maxChannelNameSize ∧ 0 ∉ name) ∧ options.priority ≤ 3 then
    match s.allocateId with
    | none => none
    | some (id, s') =>
      let channel : Channel D :=
        { name := ⟨name, hn.1.1, hn.1.2.1, hn.1.2.2⟩
          priority := ⟨options.priority, Nat.lt_succ_of_le hn.2⟩
          state := .pending
          reassembler := { maxSize := options.maxMessageSize.getD s.config.maxMessageSize } }
      let s'' := s'.setChannel id channel
      if s''.state = .ready ∧ s''.error = none then some (id, s''.sendCreate id channel)
      else some (id, { s'' with pending := s''.pending ++ [id] })
  else none

/-- Queues one message on an open channel; `false` unless the channel is open. -/
def send (message : List UInt8) : Option (Bool × DvcServer D) :=
  match s.channels.lookup id with
  | none => some (false, s)
  | some channel =>
    if s.error.isSome ∨ channel.state ≠ .opened then some (false, s)
    else
      match encodeData id message with
      | none => none
      | some pdus => some (true, { s with output := s.output ++ pdus })

/-- Closes a channel from the server side; its id is forgotten at once. -/
def close : DvcServer D :=
  match s.channels.lookup id with
  | none => s
  | some channel =>
    if channel.state = .pending then { s.eraseChannel id with pending := s.pending.filter (· ≠ id) }
    -- also for a channel still waiting for its Create Response
    else { s.eraseChannel id with output := s.output ++ [encodeClose ⟨id⟩] }

def requireReady : Result Unit :=
  if s.state ≠ .ready then fail .invalidValue "drdynvc PDU before the capabilities exchange" 0 else .ok ()

/-- The open channel for a data PDU, `none` for an unknown id. -/
def dataChannel : Result (Option (Channel D)) :=
  match s.requireReady with
  | .error e => .error e
  | .ok () =>
    match s.channels.lookup id with
    | none => .ok none
    | some channel =>
      if channel.state ≠ .opened then fail .invalidValue "DVC data on a channel that is not open" 1
      else .ok (some channel)

def deliver (message : Option (List UInt8)) : DvcServer D :=
  match message with
  | some data => { s with events := s.events ++ [.channelData id data] }
  | none => s

/-- Keeps the reassembler after a block and delivers the message it completes. -/
def reassembled (channel : Channel D) (result : Result (Option (List UInt8)) × MessageReassembler) :
    Result Unit × DvcServer D :=
  let s' := s.setChannel id { channel with reassembler := result.2 }
  match result.1 with
  | .error e => (.error e, s')
  | .ok message => (.ok (), s'.deliver id message)

/-- One block of a compressed data PDU, and the channel with its decompressor. -/
def decompress (channel : Channel D) (data : List UInt8) : Result (List UInt8) × Channel D :=
  -- compressed PDUs need version 3 on both sides
  if s.version.getD 0 < version3 then
    (fail .invalidValue "compressed DVC data without version 3" 0, channel)
  else
    match s.config.makeDecompressor with
    | none => (fail .unsupported "compressed DVC data without a decompressor" 0, channel)
    | some z =>
      let result := z.decompress (channel.decompressor.getD z.fresh) data
      (result.1, { channel with decompressor := some result.2 })

/-- Requests every channel that waited for the capabilities exchange. -/
def createPending (s : DvcServer D) : List ℕ → DvcServer D
  | [] => s
  | id :: ids =>
    match s.channels.lookup id with
    | some channel => (s.sendCreate id channel).createPending ids
    | none => s.createPending ids

def handleCapsResponse (pdu : CapsResponse) : Result Unit × DvcServer D :=
  if s.state = .idle then (fail .invalidValue "DVC Capabilities Response before the request" 0, s)
  else if s.state = .ready then (fail .invalidValue "second DVC Capabilities Response" 0, s)
  else if pdu.version = 0 then (fail .invalidValue "DVC Capabilities Response with version 0" 2, s)
  else
    let version := min pdu.version s.offered
    let s' : DvcServer D := { s with
      version := some version, state := .ready, events := s.events ++ [.capabilitiesReady version], pending := [] }
    (.ok (), s'.createPending s.pending)

def handleCreateResponse (pdu : CreateResponse) : Result Unit × DvcServer D :=
  match s.requireReady with
  | .error e => (.error e, s)
  | .ok () =>
    match s.channels.lookup pdu.channelId with
    | none => (.ok (), s)
    | some channel =>
      match channel.state with
      | .pending => (fail .invalidValue "DVC Create Response for a channel not requested yet" 1, s)
      | .opened => (fail .invalidValue "second DVC Create Response" 1, s)
      | .opening =>
        if pdu.creationStatus < 0 then
          (.ok (), { s.eraseChannel pdu.channelId with
            events := s.events ++ [.channelOpenFailed pdu.channelId channel.name pdu.creationStatus] })
        else
          (.ok (), { s.setChannel pdu.channelId { channel with state := .opened } with
            events := s.events ++ [.channelOpened pdu.channelId channel.name] })

def handleDataFirst (pdu : DataFirst) : Result Unit × DvcServer D :=
  match s.dataChannel pdu.channelId with
  | .error e => (.error e, s)
  | .ok none => (.ok (), s)
  | .ok (some channel) =>
    s.reassembled pdu.channelId channel (channel.reassembler.first pdu.length pdu.data)

def handleData (pdu : Data) : Result Unit × DvcServer D :=
  match s.dataChannel pdu.channelId with
  | .error e => (.error e, s)
  | .ok none => (.ok (), s)
  | .ok (some channel) => s.reassembled pdu.channelId channel (channel.reassembler.next pdu.data)

def handleDataFirstCompressed (pdu : DataFirst) : Result Unit × DvcServer D :=
  match s.dataChannel pdu.channelId with
  | .error e => (.error e, s)
  | .ok none => (.ok (), s)
  | .ok (some channel) =>
    match s.decompress channel pdu.data with
    | (.error e, channel') => (.error e, s.setChannel pdu.channelId channel')
    | (.ok block, channel') =>
      s.reassembled pdu.channelId channel' (channel'.reassembler.first pdu.length block)

def handleDataCompressed (pdu : Data) : Result Unit × DvcServer D :=
  match s.dataChannel pdu.channelId with
  | .error e => (.error e, s)
  | .ok none => (.ok (), s)
  | .ok (some channel) =>
    match s.decompress channel pdu.data with
    | (.error e, channel') => (.error e, s.setChannel pdu.channelId channel')
    | (.ok block, channel') => s.reassembled pdu.channelId channel' (channel'.reassembler.next block)

/-- The server does not answer a client's Close. -/
def handleClose (pdu : Close) : Result Unit × DvcServer D :=
  match s.requireReady with
  | .error e => (.error e, s)
  | .ok () =>
    match s.channels.lookup pdu.channelId with
    | none => (.ok (), s)
    | some channel =>
      if channel.state ≠ .opened then (fail .invalidValue "DVC Close for a channel that is not open" 1, s)
      else (.ok (), { s.eraseChannel pdu.channelId with events := s.events ++ [.channelClosed pdu.channelId] })

def handle : ClientPdu → Result Unit × DvcServer D
  | .capsResponse pdu => s.handleCapsResponse pdu
  | .createResponse pdu => s.handleCreateResponse pdu
  | .common (.dataFirst pdu) => s.handleDataFirst pdu
  | .common (.data pdu) => s.handleData pdu
  | .common (.dataFirstCompressed pdu) => s.handleDataFirstCompressed pdu
  | .common (.dataCompressed pdu) => s.handleDataCompressed pdu
  | .common (.close pdu) => s.handleClose pdu
  | .softSyncResponse _ => (s.requireReady, s)

/-- Processes one reassembled message from the client. -/
def receive (message : List UInt8) : Result Unit × DvcServer D :=
  match s.error with
  | some e => (.error e, s)
  | none =>
    match decodeClientPdu message with
    | .error e => (.error e, { s with error := some e })
    | .ok pdu =>
      match s.handle pdu with
      | (.error e, s') => (.error e, { s' with error := some e })
      | (.ok (), s') => (.ok (), s')

def takeOutput : List (List UInt8) × DvcServer D := (s.output, { s with output := [] })

def pollEvent : Option DvcEvent × DvcServer D :=
  match s.events with
  | [] => (none, s)
  | event :: events => (some event, { s with events := events })

def isOpen : Bool :=
  match s.channels.lookup id with
  | some channel => channel.state == .opened
  | none => false

/-! ### The search for a free id -/

theorem nextIdAfter_eq (h1 : 1 ≤ id) (h2 : id ≤ 0xFFFFFFFF) : nextIdAfter id = id % 0xFFFFFFFF + 1 := by
  unfold nextIdAfter
  split_ifs with h
  · subst h
    rfl
  · rw [Nat.mod_eq_of_lt (by omega)]

/-- The id tried in the `k`-th turn of a search from `first` on. -/
def triedId (first k : ℕ) : ℕ := (first - 1 + k) % 0xFFFFFFFF + 1

theorem triedId_range (first k : ℕ) : 1 ≤ triedId first k ∧ triedId first k ≤ 0xFFFFFFFF :=
  ⟨Nat.le_add_left 1 _, Nat.mod_lt _ (by decide)⟩

theorem triedId_zero (h1 : 1 ≤ id) (h2 : id ≤ 0xFFFFFFFF) : triedId id 0 = id := by
  rw [triedId, Nat.add_zero, Nat.mod_eq_of_lt (by omega), Nat.sub_add_cancel h1]

theorem triedId_succ (h1 : 1 ≤ id) (h2 : id ≤ 0xFFFFFFFF) (k : ℕ) : triedId id (k + 1) = triedId (nextIdAfter id) k := by
  rw [nextIdAfter_eq id h1 h2, triedId, triedId, Nat.add_sub_cancel, Nat.mod_add_mod,
    show id - 1 + (k + 1) = id + k by omega]

/-- The search passes over taken ids only, and gives the first that is free. -/
theorem allocateFrom_cases {channels : AList (fun _ : ℕ => Channel D)} : ∀ (fuel id : ℕ), 1 ≤ id → id ≤ 0xFFFFFFFF →
    (∀ k < fuel, triedId id k ∈ channels) ∨
      ∃ k < fuel, (∀ j < k, triedId id j ∈ channels) ∧ triedId id k ∉ channels ∧
        allocateFrom channels fuel id = some (triedId id k, nextIdAfter (triedId id k))
  | 0, _, _, _ => .inl fun k hk => absurd hk (Nat.not_lt_zero k)
  | fuel + 1, id, h1, h2 => by
    unfold allocateFrom
    have hzero := triedId_zero id h1 h2
    have hsucc := triedId_succ id h1 h2
    by_cases hm : id ∈ channels
    · rw [if_pos hm]
      have hrange : 1 ≤ nextIdAfter id ∧ nextIdAfter id ≤ 0xFFFFFFFF := by
        rw [nextIdAfter_eq id h1 h2]
        exact triedId_range (id + 1) 0
      -- what is tried from the next id on is tried here one turn later
      have hshift : ∀ k, (∀ j < k, triedId (nextIdAfter id) j ∈ channels) → ∀ j < k + 1, triedId id j ∈ channels := by
        intro k hk j hj
        cases j with
        | zero => rwa [hzero]
        | succ j => exact hsucc j ▸ hk j (Nat.lt_of_succ_lt_succ hj)
      rcases allocateFrom_cases fuel _ hrange.1 hrange.2 with hall | ⟨k, hk, htaken, hfree, heq⟩
      · exact .inl (hshift fuel hall)
      · rw [← hsucc k] at hfree heq
        exact .inr ⟨k + 1, Nat.succ_lt_succ hk, hshift k htaken, hfree, heq⟩
    · rw [if_neg hm]
      refine .inr ⟨0, Nat.succ_pos fuel, fun j hj => absurd hj (Nat.not_lt_zero j), ?_, ?_⟩
      · rw [hzero]
        exact hm
      · rw [hzero]

/-- There are not enough channels to take every id that is tried. -/
theorem exists_triedId_free (hsize : s.channels.entries.length < 0xFFFFFFFF) :
    ∃ k < s.channels.entries.length + 1, triedId s.nextId k ∉ s.channels := by
  by_contra hall
  push Not at hall
  let tried := (Finset.range (s.channels.entries.length + 1)).image (triedId s.nextId)
  have hcard : tried.card = s.channels.entries.length + 1 := by
    rw [Finset.card_image_of_injOn, Finset.card_range]
    intro a ha b hb hab
    rw [Finset.coe_range, Set.mem_Iio] at ha hb
    simp only [triedId, Nat.add_right_cancel_iff] at hab
    have := Nat.ModEq.add_left_cancel' _ hab
    exact Nat.ModEq.eq_of_lt_of_lt this (by omega) (by omega)
  have hsub : tried ⊆ s.channels.keys.toFinset := by
    intro id hid
    obtain ⟨k, hk, rfl⟩ := Finset.mem_image.mp hid
    exact List.mem_toFinset.mpr (AList.mem_keys.mp (hall k (Finset.mem_range.mp hk)))
  have hle := (Finset.card_le_card hsub).trans (List.toFinset_card_le _)
  have hlen : s.channels.keys.length = s.channels.entries.length := List.length_map _
  omega

/-- **The search for a free id ends**: it passes over taken ids only, at most as
many as there are channels, gives the first id that no channel has, and leaves
the one behind it to be tried next. -/
theorem allocateId_free (hsize : s.channels.entries.length < 0xFFFFFFFF) (h1 : 1 ≤ s.nextId)
    (h2 : s.nextId ≤ 0xFFFFFFFF) :
    ∃ k ≤ s.channels.entries.length, ∃ id next, s.allocateId = some (id, { s with nextId := next }) ∧
      id = triedId s.nextId k ∧ (∀ j < k, triedId s.nextId j ∈ s.channels) ∧ id ∉ s.channels ∧
      (1 ≤ id ∧ id ≤ 0xFFFFFFFF) ∧ next = nextIdAfter id ∧ 1 ≤ next ∧ next ≤ 0xFFFFFFFF := by
  obtain ⟨k, hk, hfree⟩ := s.exists_triedId_free hsize
  rcases @allocateFrom_cases _ s.channels (s.channels.entries.length + 1) s.nextId h1 h2 with
    hall | ⟨k, hk, htaken, hfree, heq⟩
  · exact absurd (hall k hk) hfree
  · have hrange := triedId_range s.nextId k
    refine ⟨k, Nat.le_of_lt_succ hk, _, _, ?_, rfl, htaken, hfree, hrange, rfl, ?_⟩
    · rw [allocateId, if_pos hsize, heq]
    · rw [nextIdAfter_eq _ hrange.1 hrange.2]
      exact triedId_range (triedId s.nextId k + 1) 0

/-- Its last id and its first are taken. -/
def wrapping : DvcServer Unit where
  config := {}
  nextId := 0xFFFFFFFF
  channels :=
    let channel : Channel Unit := ⟨.a, ⟨1, by decide⟩, .pending, { maxSize := 0 }, none⟩
    ((∅ : AList fun _ : ℕ => Channel Unit).insert 1 channel).insert 0xFFFFFFFF channel

theorem allocateId_free_wrapping : wrapping.allocateId = some (2, { wrapping with nextId := 3 }) := by
  obtain ⟨k, hk, _, _, heq, rfl, htaken, hfree, -, rfl, -⟩ :=
    allocateId_free wrapping (by decide) (by decide) (by decide)
  obtain rfl : k = 2 := by
    have hlen : k ≤ 2 := hk
    interval_cases k
    · exact absurd (by decide) hfree
    · exact absurd (by decide) hfree
    · rfl
  exact heq

end DvcServer

end Drdynvc
end Channels
end Farland
