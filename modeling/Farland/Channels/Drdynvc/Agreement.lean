/-
# Server and client agree

The invariant of the joined system: every channel is `Linked`, the server has
no error, ids are handed out in order, and the capabilities exchange comes
first (`Exchange`). Every step keeps it, whatever the order of the caller's
calls, the client's sends and the deliveries, and it gives `Agreement`. The
client has to keep within the reassembly limit of each channel: a message over
it makes `receive` fail.

Key theorems: `step_inv`, `reachable_agreement`.
-/
import Farland.Channels.Drdynvc.Link

namespace Farland
namespace Channels
namespace Drdynvc

open List DvcServer AList DvcEvent

variable {id : ℕ} {m : List UInt8} {pdu : ClientPdu} {queue : List (List UInt8)} {c : Client}
  {complete : List (ℕ × List UInt8)} {fits : ℕ → List UInt8 → Prop}

variable {D : Type}

namespace Joint

/-- The view of one channel in a state of the system. -/
def view (j : Joint D) (id : ℕ) : View D where
  chan := j.server.channels.lookup id
  down := j.down.filterMap (downOf id)
  phase := j.client.phase id
  up := j.toServer.filterMap (upOf id)
  data := j.events.filterMap (dataOf id)
  sent := j.sent id
  outcomes := j.events.countP (isOutcome id)
  limit := j.limit id
  opened := id ∈ j.opened
  closed := id ∈ j.closed
  replying := id ∈ j.client.replies

/-- Nothing in a queue is a Capabilities Request. -/
def NoCaps (queue : List (List UInt8)) : Prop := ∀ m ∈ queue, ∀ p, decodeServerPdu m ≠ .ok (.capsRequest p)

/-- Where the capabilities exchange stands. -/
inductive Exchange (j : Joint D) : Prop
  /-- The request, the client's turn or the response: nothing else is on its way. -/
  | waiting : j.server.state = .waitingCaps →
      (∀ id c, j.server.channels.lookup id = some c → c.state = .pending) →
      (∀ m ∈ j.left, ∃ p, decodeServerPdu m = .ok (.capsRequest p)) →
      (∀ id, j.client.phase id = .unknown) → j.client.replies = [] →
      (j.toServer = [] ∧ j.client.capsAsked = false ∧ (∃ m, j.down = [m]) ∨
        j.toServer = [] ∧ j.client.capsAsked = true ∧ j.down = [] ∨
        j.client.capsAsked = false ∧ j.down = [] ∧
          ∃ m p, j.toServer = [m] ∧ decodeClientPdu m = .ok (.capsResponse p) ∧ p.version ≠ 0) → Exchange j
  /-- Over: what is on its way to the server is about a channel. -/
  | ready : j.server.state = .ready → j.server.pending = [] → j.client.capsAsked = false →
      NoCaps j.down →
      (∀ m ∈ j.toServer, ∃ pdu id, decodeClientPdu m = .ok pdu ∧ pdu.channel = some id) →
      (∃ m ∈ j.taken, ∃ p, decodeClientPdu m = .ok (.capsResponse p)) → Exchange j

structure Inv (j : Joint D) : Prop where
  links : ∀ id, Linked id (j.view id)
  noError : j.server.error = none
  exchange : Exchange j
  opened : j.opened = List.range' 1 j.opened.length
  nextId : j.server.nextId = j.opened.length + 1
  pending : j.server.pending.Nodup
  isPending : ∀ id ∈ j.server.pending, ∃ c, j.server.channels.lookup id = some c ∧ c.state = .pending

/-! ### The parts of a view -/

theorem upOf_eq (h : decodeClientPdu m = .ok pdu) (id : ℕ) :
    upOf id m = if pdu.channel = some id then some pdu else none := by
  rw [upOf, h]

theorem downOf_eq {pdu : ServerPdu} (h : decodeServerPdu m = .ok pdu) (id : ℕ) :
    downOf id m = pdu.down id := by
  rw [downOf, h]

theorem downOf_create (pdu : CreateRequest) (h : pdu.channelId < 2 ^ 32) (id : ℕ) :
    downOf id (encodeCreateRequest pdu) = if pdu.channelId = id then some .create else none :=
  downOf_eq (decodeServerPdu_createRequest pdu h) id

theorem downOf_close (pdu : Close) (h : pdu.channelId < 2 ^ 32) (id : ℕ) :
    downOf id (encodeClose pdu) = if pdu.channelId = id then some .close else none :=
  downOf_eq (decodeServerPdu_close pdu h) id

theorem downOf_data {k : ℕ} (h : IsDataOf k m) (id : ℕ) : downOf id m = none := by
  rcases h with ⟨d, h⟩ | ⟨n, d, h⟩
  all_goals rw [downOf, h]; rfl

variable {j : Joint D}

theorem Inv.mem_opened (h : Inv j) (hid : id ∈ j.opened) : id ≤ j.opened.length := by
  rw [h.opened, mem_range'_1] at hid
  omega

/-- A channel that the server knows was opened. -/
theorem Inv.opened_of_lookup (h : Inv j) {c : Channel D} (hc : j.server.channels.lookup id = some c) :
    id ∈ j.opened := by
  by_contra ho
  have hn := ((h.links id).fresh_of_not_opened ho).1
  exact absurd (hn.symm.trans hc) nofun

theorem Inv.id_lt (h : Inv j) (hlen : j.opened.length < 2 ^ 32 - 1) {c : Channel D}
    (hc : j.server.channels.lookup id = some c) : id < 2 ^ 32 := by
  have := h.mem_opened (h.opened_of_lookup hc)
  omega

theorem NoCaps.append {a b : List (List UInt8)} (ha : NoCaps a) (hb : NoCaps b) : NoCaps (a ++ b) := by
  intro m hm
  rcases mem_append.mp hm with h | h
  exacts [ha m h, hb m h]

theorem NoCaps.output {out : List (List UInt8)} (h : NoCaps j.down) (ho : NoCaps out) :
    NoCaps (j.toClient ++ (j.server.output ++ out)) := by
  rw [← append_assoc]
  exact h.append ho

theorem noCaps_create {pdu : CreateRequest} (h : pdu.channelId < 2 ^ 32) : NoCaps [encodeCreateRequest pdu] := by
  intro m hm p
  rw [mem_singleton.mp hm, decodeServerPdu_createRequest _ h]
  exact nofun

theorem noCaps_close {pdu : Close} (h : pdu.channelId < 2 ^ 32) : NoCaps [encodeClose pdu] := by
  intro m hm p
  rw [mem_singleton.mp hm, decodeServerPdu_close _ h]
  exact nofun

theorem noCaps_data {pdus : List (List UInt8)} (h : ∀ m ∈ pdus, IsDataOf id m) : NoCaps pdus := by
  intro m hm p
  rcases h m hm with ⟨d, hd⟩ | ⟨n, d, hd⟩
  all_goals rw [hd]; exact nofun

/-! ### The caller's calls -/

/-- `sendCreate` on a pending channel. -/
theorem links_sendCreate (h : ∀ id, Linked id (j.view id)) {c : Channel D} (hid : id < 2 ^ 32)
    (hc : j.server.channels.lookup id = some c) (hs : c.state = .pending) :
    ∀ i, Linked i ({ j with server := j.server.sendCreate id c }.view i) := by
  intro i
  have hdown := downOf_create ⟨id, c.priority, c.name⟩ hid i
  by_cases hi : i = id
  · subst hi
    convert (h i).request hc hs using 1
    simp [view, down, events, sendCreate, setChannel, hdown]
  · rw [if_neg (Ne.symm hi)] at hdown
    convert h i using 1
    simp [view, down, events, sendCreate, setChannel, hdown, lookup_insert_ne hi]

theorem createPending_frame : ∀ (ids : List ℕ) (s : DvcServer D),
    (s.createPending ids).state = s.state ∧ (s.createPending ids).error = s.error ∧
      (s.createPending ids).nextId = s.nextId ∧ (s.createPending ids).pending = s.pending
  | [], _ => ⟨rfl, rfl, rfl, rfl⟩
  | id :: ids, s => by
    unfold createPending
    split
    · exact createPending_frame ids _
    · exact createPending_frame ids s

/-- Every channel that waited gets its Create Request. -/
theorem links_createPending : ∀ (ids : List ℕ) (j : Joint D), (∀ id, Linked id (j.view id)) → ids.Nodup →
    (∀ id ∈ ids, id < 2 ^ 32 ∧ ∃ c, j.server.channels.lookup id = some c ∧ c.state = .pending) →
    (∀ id, Linked id ({ j with server := j.server.createPending ids }.view id)) ∧
      ∃ out, (j.server.createPending ids).output = j.server.output ++ out ∧ NoCaps out
  | [], j, h, _, _ => ⟨h, [], (append_nil _).symm, nofun⟩
  | id :: ids, j, h, hnd, hp => by
    obtain ⟨hid, c, hc, hs⟩ := hp id mem_cons_self
    rw [nodup_cons] at hnd
    have hrest : ∀ i ∈ ids, i < 2 ^ 32 ∧
        ∃ c', (j.server.sendCreate id c).channels.lookup i = some c' ∧ c'.state = .pending := by
      intro i hi
      obtain ⟨hlt, c', hc', hs'⟩ := hp i (mem_cons_of_mem _ hi)
      have hne : i ≠ id := fun he => hnd.1 (he ▸ hi)
      exact ⟨hlt, c', (lookup_insert_ne hne).trans hc', hs'⟩
    obtain ⟨hl, out, ho, hcaps⟩ :=
      links_createPending ids { j with server := j.server.sendCreate id c } (links_sendCreate h hid hc hs) hnd.2 hrest
    have heq : j.server.createPending (id :: ids) = (j.server.sendCreate id c).createPending ids := by
      rw [createPending, hc]
    rw [heq]
    refine ⟨hl, encodeCreateRequest ⟨id, c.priority, c.name⟩ :: out, ?_, ?_⟩
    · rw [ho]
      exact append_assoc _ _ _
    · exact NoCaps.append (noCaps_create hid) hcaps

theorem links_close (h : Inv j) (hlen : j.opened.length < 2 ^ 32 - 1) (id : ℕ) :
    ∀ i, Linked i (view { j with
      server := j.server.close id, closed := if id ∈ j.server.channels then id :: j.closed else j.closed } i) := by
  intro i
  unfold close
  cases hc : j.server.channels.lookup id with
  | none =>
    rw [if_neg (lookup_eq_none.mp hc)]
    exact h.links i
  | some c =>
    have hdown := downOf_close ⟨id⟩ (h.id_lt hlen hc) i
    rw [if_pos (lookup_isSome.mp (by rw [hc]; rfl))]
    by_cases hi : i = id
    · subst hi
      convert (h.links i).serverClose hc using 1
      by_cases hs : c.state = .pending
      · simp [hs, view, down, events, eraseChannel]
      · simp [hs, view, down, events, eraseChannel, hdown]
    · rw [if_neg (Ne.symm hi)] at hdown
      convert h.links i using 1
      by_cases hs : c.state = .pending
      · simp [hs, view, down, events, eraseChannel, hi]
      · simp [hs, view, down, events, eraseChannel, hdown, hi]

variable {s : DvcServer D} {s' : DvcServer D}

theorem allocateId_of_fresh (hn : s.nextId ∉ s.channels) (h : s.allocateId = some (id, s')) :
    id = s.nextId ∧ s' = { s with nextId := nextIdAfter s.nextId } := by
  unfold allocateId at h
  split at h
  · rw [allocateFrom, if_neg hn] at h
    cases h
    exact ⟨rfl, rfl⟩
  · cases h

/-- A new channel with the next id, and what `open` does with it. -/
theorem open_cases {name : List UInt8} {options : DvcChannelOptions} (hn : s.nextId ∉ s.channels)
    (h : s.open_ name options = some (id, s')) :
    id = s.nextId ∧ ∃ c : Channel D, c.state = .pending ∧
      c.reassembler = { maxSize := options.maxMessageSize.getD s.config.maxMessageSize } ∧
      ((s.state = .ready ∧ s.error = none ∧
        s' = ({ s with nextId := nextIdAfter s.nextId }.setChannel id c).sendCreate id c) ∨
      (¬ (s.state = .ready ∧ s.error = none) ∧
        s' = { { s with nextId := nextIdAfter s.nextId }.setChannel id c with pending := s.pending ++ [id]
          })) := by
  unfold open_ at h
  split at h
  · split at h
    · cases h
    · rename_i k s₁ ha
      obtain ⟨rfl, rfl⟩ := allocateId_of_fresh hn ha
      dsimp only at h
      split at h
      · rename_i hr
        cases h
        exact ⟨rfl, _, rfl, rfl, .inl ⟨hr.1, hr.2, rfl⟩⟩
      · rename_i hr
        cases h
        exact ⟨rfl, _, rfl, rfl, .inr ⟨hr, rfl⟩⟩
  · cases h

/-- A channel enters with an id that was never used. -/
theorem links_setChannel (h : Inv j) {c : Channel D} {limit : ℕ} (next : ℕ) (hs : c.state = .pending)
    (hr : c.reassembler = { maxSize := limit }) :
    ∀ i, Linked i (view { j with
      server := { j.server with nextId := next }.setChannel j.server.nextId c
      opened := j.opened ++ [j.server.nextId]
      limit := Function.update j.limit j.server.nextId limit } i) := by
  intro i
  have hfresh : j.server.nextId ∉ j.opened := fun hm => by
    have := h.mem_opened hm
    rw [h.nextId] at this
    omega
  by_cases hi : i = j.server.nextId
  · subst hi
    convert (h.links _).openPending hfresh hs hr using 1
    simp [view, down, events, setChannel]
  · convert h.links i using 1
    simp [view, down, events, setChannel, hi]

theorem inv_openChannel (h : Inv j) {name : List UInt8} {options : DvcChannelOptions}
    (hlen : (j.opened ++ [id]).length < 2 ^ 32 - 1) (ho : j.server.open_ name options = some (id, s)) :
    Inv { j with
      server := s, opened := j.opened ++ [id],
      limit := Function.update j.limit id (options.maxMessageSize.getD j.server.config.maxMessageSize) } := by
  rw [length_append, length_singleton] at hlen
  have hfresh : j.server.nextId ∉ j.opened := fun hm => by
    have := h.mem_opened hm
    rw [h.nextId] at this
    omega
  have hnone : j.server.channels.lookup j.server.nextId = none := ((h.links _).fresh_of_not_opened hfresh).1
  have hnext : nextIdAfter j.server.nextId = j.server.nextId + 1 :=
    if_neg (by rw [h.nextId]; omega)
  have hopened : j.opened ++ [j.server.nextId] = List.range' 1 (j.opened ++ [j.server.nextId]).length := by
    rw [length_append, length_singleton, range'_1_concat, ← h.opened, h.nextId, Nat.add_comm]
  obtain ⟨rfl, c, hs, hr, hcase⟩ := open_cases (lookup_eq_none.mp hnone) ho
  have hl := links_setChannel h (nextIdAfter j.server.nextId) hs hr
  have hcount : nextIdAfter j.server.nextId = (j.opened ++ [j.server.nextId]).length + 1 := by
    rw [hnext, length_append, length_singleton, h.nextId]
  have hother : ∀ i ∈ j.server.pending, ∃ c', lookup i (j.server.channels.insert j.server.nextId c) = some c' ∧
      c'.state = .pending := by
    intro i hi
    obtain ⟨c', hc', hs'⟩ := h.isPending i hi
    have hne : i ≠ j.server.nextId := fun he => absurd ((he ▸ hnone).symm.trans hc') nofun
    exact ⟨c', (lookup_insert_ne hne).trans hc', hs'⟩
  rcases hcase with ⟨hready, herr, rfl⟩ | ⟨hready, rfl⟩
  · -- the exchange is over: the Create Request leaves at once
    have hid : j.server.nextId < 2 ^ 32 := by rw [h.nextId]; omega
    have hl' := links_sendCreate hl hid (lookup_insert _) hs
    cases h.exchange with
    | waiting hw => exact absurd (hw.symm.trans hready) nofun
    | ready h₁ h₂ h₃ h₄ h₅ h₆ =>
      have hcaps : NoCaps (j.toClient ++ (j.server.output ++ [encodeCreateRequest ⟨_, c.priority, c.name⟩])) :=
        h₄.output (noCaps_create hid)
      refine ⟨hl', h.noError, .ready h₁ h₂ h₃ hcaps h₅ h₆, hopened, hcount, h.pending, fun i hi => ?_⟩
      have hi' : i ∈ j.server.pending := hi
      rw [h₂] at hi'
      cases hi'
  · cases h.exchange with
    | ready h₁ => exact absurd ⟨h₁, h.noError⟩ hready
    | waiting h₁ h₂ h₃ h₄ h₅ h₆ =>
      have hnp : j.server.nextId ∉ j.server.pending := fun hm => by
        obtain ⟨c', hc', -⟩ := h.isPending _ hm
        exact absurd (hnone.symm.trans hc') nofun
      refine ⟨hl, h.noError, .waiting h₁ ?_ h₃ h₄ h₅ h₆, hopened, hcount, ?_, ?_⟩
      · intro i c' hc'
        by_cases hi : i = j.server.nextId
        · subst hi
          cases (lookup_insert _).symm.trans hc'
          exact hs
        · exact h₂ i c' ((lookup_insert_ne hi).symm.trans hc')
      · exact nodup_append.mpr ⟨h.pending, nodup_singleton _, fun a ha b hb =>
          fun he => hnp (mem_singleton.mp hb ▸ he ▸ ha)⟩
      · intro i hi
        rcases mem_append.mp hi with hi | hi
        · exact hother i hi
        · rw [mem_singleton.mp hi]
          exact ⟨c, lookup_insert _, hs⟩

theorem inv_send (h : Inv j) (hlen : j.opened.length < 2 ^ 32 - 1) {message : List UInt8} {ok : Bool}
    (hs : j.server.send id message = some (ok, s)) : Inv { j with server := s } := by
  unfold send at hs
  split at hs
  · cases hs
    exact h
  rename_i c hc
  split at hs
  · cases hs
    exact h
  rename_i hopen
  split at hs
  · cases hs
  rename_i pdus hp
  cases hs
  have hdata := encodeData_decode (h.id_lt hlen hc) hp
  refine ⟨fun i => ?_, h.noError, ?_, h.opened, h.nextId, h.pending, h.isPending⟩
  · have hnil : pdus.filterMap (downOf i) = [] := by
      rw [filterMap_eq_nil_iff]
      exact fun m hm => downOf_data (hdata m hm) i
    convert h.links i using 1
    simp [view, down, events, hnil]
  · cases h.exchange with
    | waiting h₁ h₂ => exact absurd (.inr (by rw [h₂ id c hc]; exact nofun)) hopen
    | ready h₁ h₂ h₃ h₄ h₅ h₆ => exact .ready h₁ h₂ h₃ (h₄.output (noCaps_data hdata)) h₅ h₆

variable {channels : AList (fun _ : ℕ => Channel D)}

theorem lookup_erase_some {i : ℕ} {c : Channel D} (h : (channels.erase id).lookup i = some c) :
    i ≠ id ∧ channels.lookup i = some c := by
  by_cases hi : i = id
  · subst hi
    rw [lookup_erase] at h
    cases h
  · exact ⟨hi, (lookup_erase_ne hi).symm.trans h⟩

theorem inv_close (h : Inv j) (hlen : j.opened.length < 2 ^ 32 - 1) (id : ℕ) :
    Inv { j with
      server := j.server.close id, closed := if id ∈ j.server.channels then id :: j.closed else j.closed } := by
  have hl := links_close h hlen id
  cases hc : j.server.channels.lookup id with
  | none =>
    have hclose : j.server.close id = j.server := by rw [close, hc]
    rw [hclose, if_neg (lookup_eq_none.mp hc)]
    exact h
  | some c =>
    by_cases hs : c.state = .pending
    · have hclose : j.server.close id =
          { j.server.eraseChannel id with pending := j.server.pending.filter (· ≠ id) } := by
        rw [close, hc]
        exact if_pos hs
      rw [hclose] at hl ⊢
      refine ⟨hl, h.noError, ?_, h.opened, h.nextId, h.pending.filter _, ?_⟩
      · cases h.exchange with
        | waiting h₁ h₂ h₃ h₄ h₅ h₆ =>
          exact .waiting h₁ (fun i c' hc' => h₂ i c' (lookup_erase_some hc').2) h₃ h₄ h₅ h₆
        | ready h₁ h₂ h₃ h₄ h₅ h₆ =>
          exact .ready h₁ (by rw [h₂]; rfl) h₃ h₄ h₅ h₆
      · intro i hi
        rw [mem_filter, decide_eq_true_eq] at hi
        obtain ⟨c', hc', hs'⟩ := h.isPending i hi.1
        exact ⟨c', (lookup_erase_ne hi.2).trans hc', hs'⟩
    · have hclose : j.server.close id =
          { j.server.eraseChannel id with output := j.server.output ++ [encodeClose ⟨id⟩] } := by
        rw [close, hc]
        exact if_neg hs
      rw [hclose] at hl ⊢
      cases h.exchange with
      | waiting _ h₂ => exact absurd (h₂ id c hc) hs
      | ready h₁ h₂ h₃ h₄ h₅ h₆ =>
        have hcaps := h₄.output (noCaps_close (h.id_lt hlen hc))
        refine ⟨hl, h.noError, .ready h₁ h₂ h₃ hcaps h₅ h₆, h.opened, h.nextId, h.pending, fun i hi => ?_⟩
        have hi' : i ∈ j.server.pending := hi
        rw [h₂] at hi'
        cases hi'

theorem inv_takeOutput (h : Inv j) :
    Inv { j with server := j.server.takeOutput.2, toClient := j.toClient ++ j.server.takeOutput.1 } := by
  have hdown : down { j with server := j.server.takeOutput.2, toClient := j.toClient ++ j.server.takeOutput.1 } =
      j.down := append_nil _
  refine ⟨fun i => ?_, h.noError, ?_, h.opened, h.nextId, h.pending, h.isPending⟩
  · convert h.links i using 1
    unfold view
    rw [hdown]
    rfl
  · cases h.exchange with
    | waiting h₁ h₂ h₃ h₄ h₅ h₆ => exact .waiting h₁ h₂ (by unfold left; rwa [hdown]) h₄ h₅ (by rwa [hdown])
    | ready h₁ h₂ h₃ h₄ h₅ h₆ => exact .ready h₁ h₂ h₃ (by rwa [hdown]) h₅ h₆

theorem inv_pollEvent (h : Inv j) :
    Inv { j with server := j.server.pollEvent.2, polled := j.polled ++ j.server.pollEvent.1.toList } := by
  cases he : j.server.events with
  | nil =>
    have hp : j.server.pollEvent = (none, j.server) := by rw [pollEvent, he]
    rw [hp, Option.toList_none, append_nil]
    exact h
  | cons event events =>
    have hp : j.server.pollEvent = (some event, { j.server with events := events }) := by
      rw [pollEvent, he]
    rw [hp]
    refine ⟨fun i => ?_, h.noError, ?_, h.opened, h.nextId, h.pending, h.isPending⟩
    · convert h.links i using 1
      simp [view, down, Joint.events, he]
    · cases h.exchange with
      | waiting h₁ h₂ h₃ h₄ h₅ h₆ => exact .waiting h₁ h₂ h₃ h₄ h₅ h₆
      | ready h₁ h₂ h₃ h₄ h₅ h₆ => exact .ready h₁ h₂ h₃ h₄ h₅ h₆

/-! ### A message reaches the server -/

theorem receive_of_handle (herr : s.error = none) (hdec : decodeClientPdu m = .ok pdu)
    (hh : s.handle pdu = (.ok (), s')) : s.receive m = (.ok (), s') := by
  rw [receive, herr]
  rw [hdec]
  dsimp only
  rw [hh]

/-- A PDU for an unknown channel is ignored. -/
theorem handle_unknown (hready : s.state = .ready) (hp : pdu.channel = some id) (hc : s.channels.lookup id = none) :
    s.handle pdu = (.ok (), s) := by
  have hr : s.requireReady = .ok () := if_neg (not_not_intro hready)
  have hd : s.dataChannel id = .ok none := by
    rw [dataChannel, hr]
    rw [hc]
  cases pdu with
  | capsResponse _ | softSyncResponse _ => cases hp
  | createResponse pdu =>
    cases hp
    rw [handle, handleCreateResponse, hr]
    rw [hc]
  | common pdu =>
    cases pdu with
    | dataFirst pdu =>
      cases hp
      rw [handle, handleDataFirst, hd]
    | data pdu =>
      cases hp
      rw [handle, handleData, hd]
    | dataFirstCompressed pdu =>
      cases hp
      rw [handle, handleDataFirstCompressed, hd]
    | dataCompressed pdu =>
      cases hp
      rw [handle, handleDataCompressed, hd]
    | close pdu =>
      cases hp
      rw [handle, handleClose, hr]
      rw [hc]

theorem handle_frag {c : Channel D} {f : Frag} {o : Option (List UInt8)} {r₁ : MessageReassembler}
    (hready : s.state = .ready) (hc : s.channels.lookup id = some c) (hs : c.state = .opened)
    (ht : c.reassembler.take f = (.ok o, r₁)) :
    s.handle (f.pdu id) = (.ok (), (s.setChannel id { c with reassembler := r₁ }).deliver id o) := by
  have hd : s.dataChannel id = .ok (some c) := by
    rw [dataChannel, requireReady, if_neg (not_not_intro hready)]
    rw [hc]
    exact if_neg (not_not_intro hs)
  have hre : ∀ result, result = (.ok o, r₁) →
      s.reassembled id c result = (.ok (), (s.setChannel id { c with reassembler := r₁ }).deliver id o) := by
    rintro _ rfl
    rfl
  cases f with
  | first length block =>
    rw [Frag.pdu, handle, handleDataFirst, hd]
    exact hre _ ht
  | next block =>
    rw [Frag.pdu, handle, handleData, hd]
    exact hre _ ht

theorem handle_close {c : Channel D} (hready : s.state = .ready) (hc : s.channels.lookup id = some c)
    (hs : c.state = .opened) :
    s.handle (.common (.close ⟨id⟩)) =
      (.ok (), { s.eraseChannel id with events := s.events ++ [.channelClosed id] }) := by
  rw [handle, handleClose, requireReady, if_neg (not_not_intro hready)]
  rw [hc]
  exact if_neg (not_not_intro hs)

theorem handle_answer {c : Channel D} (hready : s.state = .ready) (hc : s.channels.lookup id = some c)
    (hs : c.state = .opening) (status : ℤ) :
    s.handle (.createResponse ⟨id, status⟩) = (.ok (), if status < 0 then
        { s.eraseChannel id with events := s.events ++ [.channelOpenFailed id c.name status] }
      else
        { s.setChannel id { c with state := .opened } with events := s.events ++ [.channelOpened id c.name] }) := by
  rw [handle, handleCreateResponse, requireReady, if_neg (not_not_intro hready)]
  rw [hc]
  dsimp only
  rw [hs]
  split_ifs <;> rfl

/-- An event that is about the channel `id` only. -/
def OnlyOn (id : ℕ) (e : DvcEvent) : Prop := ∀ i ≠ id, e.dataOf i = none ∧ e.isOutcome i = false

/-- A PDU of `id` is taken off the queue, changes that channel and appends `new` to the events. -/
theorem links_arrive (hl : ∀ id, Linked id (j.view id)) (hq : j.toServer = m :: queue)
    (hdec : decodeClientPdu m = .ok pdu) (hid : pdu.channel = some id) {new : List DvcEvent}
    (hch : ∀ i ≠ id, channels.lookup i = j.server.channels.lookup i) (hnew : ∀ e ∈ new, OnlyOn id e)
    (h : Linked id { j.view id with
      chan := channels.lookup id, up := queue.filterMap (upOf id)
      data := (j.view id).data ++ new.filterMap (dataOf id)
      outcomes := (j.view id).outcomes + new.countP (isOutcome id) }) :
    ∀ i, Linked i (view { j with
      server := { j.server with channels := channels, events := j.server.events ++ new }
      toServer := queue, taken := j.taken ++ [m] } i) := by
  intro i
  by_cases hi : i = id
  · subst hi
    convert h using 1
    simp [view, down, events, Nat.add_assoc]
  · have hup : j.toServer.filterMap (upOf i) = queue.filterMap (upOf i) := by
      rw [hq, filterMap_cons_none]
      rw [upOf_eq hdec, if_neg]
      rw [hid]
      exact fun h => hi (Option.some.inj h).symm
    have hdata : new.filterMap (dataOf i) = [] := by
      rw [filterMap_eq_nil_iff]
      exact fun e he => (hnew e he i hi).1
    have hout : new.countP (isOutcome i) = 0 := by
      rw [countP_eq_zero]
      intro e he
      rw [(hnew e he i hi).2]
      exact nofun
    convert hl i using 1
    simp [view, down, events, hup, hdata, hout, hch i hi]

/-- The PDU of a channel arrives when the exchange is over: it is taken, and
only the server's part of that channel changes. -/
theorem arrive_ready (hl : ∀ id, Linked id (j.view id)) (hready : j.server.state = .ready)
    (hq : j.toServer = m :: queue) (hdec : decodeClientPdu m = .ok pdu) (hid : pdu.channel = some id) :
    ∃ channels new,
      j.server.handle pdu = (.ok (), { j.server with channels := channels, events := j.server.events ++ new }) ∧
      ∀ i, Linked i (view { j with
        server := { j.server with channels := channels, events := j.server.events ++ new }
        toServer := queue, taken := j.taken ++ [m] } i) := by
  have hup : (j.view id).up = pdu :: queue.filterMap (upOf id) := by
    change j.toServer.filterMap (upOf id) = _
    rw [hq, filterMap_cons_some]
    rw [upOf_eq hdec, if_pos hid]
  have herase : ∀ i ≠ id, (j.server.channels.erase id).lookup i = j.server.channels.lookup i :=
    fun i hi => lookup_erase_ne hi
  have hinsert : ∀ c, ∀ i ≠ id, (j.server.channels.insert id c).lookup i = j.server.channels.lookup i :=
    fun c i hi => lookup_insert_ne hi
  rcases (hl id).arrive hup with ⟨hc, h⟩ | ⟨c, status, rfl, hc, hs, hst, h⟩ | ⟨c, status, rfl, hc, hs, hst, h⟩ |
    ⟨c, f, o, r₁, rfl, hc, hs, ht, h⟩ | ⟨c, rfl, hc, hs, h⟩
  · -- unknown to the server
    refine ⟨j.server.channels, [], ?_, links_arrive hl hq hdec hid (fun _ _ => rfl) nofun ?_⟩
    · rw [handle_unknown hready hid hc, append_nil]
    · convert h using 2
      · rfl
      · exact append_nil _
      · rfl
  · -- the refusal
    have hh := handle_answer hready hc hs status
    rw [if_pos hst] at hh
    refine ⟨_, [.channelOpenFailed id c.name status], hh, links_arrive hl hq hdec hid herase ?_ ?_⟩
    · intro e he i hi
      rw [mem_singleton.mp he]
      exact ⟨rfl, beq_false_of_ne (Ne.symm hi)⟩
    · convert h using 2
      · exact lookup_erase _ _
      · exact append_nil _
      · simp [isOutcome]
  · -- the acceptance
    have hh := handle_answer hready hc hs status
    rw [if_neg hst] at hh
    refine ⟨_, [.channelOpened id c.name], hh, links_arrive hl hq hdec hid (hinsert _) ?_ ?_⟩
    · intro e he i hi
      rw [mem_singleton.mp he]
      exact ⟨rfl, beq_false_of_ne (Ne.symm hi)⟩
    · convert h using 2
      · exact lookup_insert _
      · exact append_nil _
      · simp [isOutcome]
  · -- a fragment
    refine ⟨j.server.channels.insert id { c with reassembler := r₁ }, o.toList.map (.channelData id), ?_,
      links_arrive hl hq hdec hid (hinsert _) ?_ ?_⟩
    · rw [handle_frag hready hc hs ht]
      cases o with
      | none =>
        rw [Option.toList_none, map_nil, append_nil]
        rfl
      | some data => rfl
    · intro e he i hi
      obtain ⟨d, -, rfl⟩ := mem_map.mp he
      exact ⟨if_neg (Ne.symm hi), rfl⟩
    · convert h using 2
      · exact lookup_insert _
      · cases o <;> simp [dataOf]
      · cases o <;> simp [isOutcome]
  · -- the client's Close
    refine ⟨_, [.channelClosed id], handle_close hready hc hs, links_arrive hl hq hdec hid herase ?_ ?_⟩
    · intro e he i hi
      rw [mem_singleton.mp he]
      exact ⟨rfl, rfl⟩
    · convert h using 2
      · exact lookup_erase _ _
      · exact append_nil _
      · simp [isOutcome]

/-- The Capabilities Response arrives: the exchange is over and the channels
that waited are requested. -/
theorem inv_caps (h : Inv j) (hlen : j.opened.length < 2 ^ 32 - 1) {p : CapsResponse}
    (hw : j.server.state = .waitingCaps) (hasked : j.client.capsAsked = false) (hdown : j.down = [])
    (hq : j.toServer = [m]) (hdec : decodeClientPdu m = .ok (.capsResponse p)) (hp : p.version ≠ 0) :
    (j.server.receive m).1 = .ok () ∧
      Inv { j with server := (j.server.receive m).2, toServer := [], taken := j.taken ++ [m] } := by
  let s : DvcServer D := { j.server with
    version := some (min p.version j.server.offered), state := .ready
    events := j.server.events ++ [.capabilitiesReady (min p.version j.server.offered)], pending := [] }
  have hh : j.server.handle (.capsResponse p) = (.ok (), s.createPending j.server.pending) := by
    rw [handle, handleCapsResponse, if_neg (by rw [hw]; exact nofun), if_neg (by rw [hw]; exact nofun), if_neg hp]
  rw [receive_of_handle h.noError hdec hh]
  have hl : ∀ i, Linked i (view { j with server := s, toServer := [], taken := j.taken ++ [m] } i) := by
    intro i
    have hup : upOf i m = none := by rw [upOf_eq hdec]; exact if_neg nofun
    convert h.links i using 1
    simp [s, view, down, events, hq, hup, dataOf, isOutcome]
  have hpend : ∀ i ∈ j.server.pending, i < 2 ^ 32 ∧ ∃ c, s.channels.lookup i = some c ∧ c.state = .pending := by
    intro i hi
    obtain ⟨c, hc, hs⟩ := h.isPending i hi
    exact ⟨h.id_lt hlen hc, c, hc, hs⟩
  obtain ⟨hl', out, hout, hcaps⟩ :=
    links_createPending j.server.pending { j with server := s, toServer := [], taken := j.taken ++ [m] } hl h.pending
      hpend
  obtain ⟨h₁, h₂, h₃, h₄⟩ := createPending_frame j.server.pending s
  have hnil : NoCaps j.down := by
    rw [hdown]
    exact nofun
  have hno : NoCaps (j.toClient ++ (s.createPending j.server.pending).output) := by
    rw [hout]
    exact hnil.output hcaps
  refine ⟨rfl, hl', h₂.trans h.noError, .ready h₁ h₄ hasked hno nofun ?_, h.opened, h₃.trans h.nextId, ?_, ?_⟩
  · exact ⟨m, mem_append_right _ (mem_singleton_self m), p, hdec⟩
  · rw [h₄]
    exact nodup_nil
  · intro i hi
    rw [h₄] at hi
    cases hi

theorem inv_serverReceive (h : Inv j) (hlen : j.opened.length < 2 ^ 32 - 1) (hq : j.toServer = m :: queue) :
    (j.server.receive m).1 = .ok () ∧
      Inv { j with server := (j.server.receive m).2, toServer := queue, taken := j.taken ++ [m] } := by
  cases h.exchange with
  | waiting h₁ h₂ h₃ h₄ h₅ h₆ =>
    rcases h₆ with ⟨hn, -⟩ | ⟨hn, -⟩ | ⟨hasked, hdown, m', p, hq', hdec, hp⟩
    · exact absurd (hn.symm.trans hq) nofun
    · exact absurd (hn.symm.trans hq) nofun
    · cases hq'.symm.trans hq
      exact inv_caps h hlen h₁ hasked hdown hq hdec hp
  | ready h₁ h₂ h₃ h₄ h₅ h₆ =>
    obtain ⟨pdu, id, hdec, hid⟩ := h₅ m (by rw [hq]; exact mem_cons_self)
    obtain ⟨channels, new, hh, hl⟩ := arrive_ready h.links h₁ hq hdec hid
    rw [receive_of_handle h.noError hdec hh]
    refine ⟨rfl, hl, h.noError, .ready h₁ h₂ h₃ h₄ ?_ ?_, h.opened, h.nextId, h.pending, ?_⟩
    · intro m' hm
      exact h₅ m' (by rw [hq]; exact mem_cons_of_mem _ hm)
    · obtain ⟨m', hm, p, hp⟩ := h₆
      exact ⟨m', mem_append_left _ hm, p, hp⟩
    · intro i hi
      have hi' : i ∈ j.server.pending := hi
      rw [h₂] at hi'
      cases hi'

/-! ### A message reaches the client -/

theorem links_clientReceive (hl : ∀ id, Linked id (j.view id)) {pdu : ServerPdu} (hq : j.toClient = m :: queue)
    (hdec : decodeServerPdu m = .ok pdu) :
    ∀ i, Linked i (view { j with
      client := j.client.receive pdu, toClient := queue, seen := j.seen ++ [m] } i) := by
  intro i
  have hdown : j.down.filterMap (downOf i) = (pdu.down i).toList ++ (queue ++ j.server.output).filterMap
    (downOf i) := by
    rw [down, hq, cons_append]
    cases hd : pdu.down i with
    | none => rw [filterMap_cons_none ((downOf_eq hdec i).trans hd), Option.toList_none, nil_append]
    | some d => rw [filterMap_cons_some ((downOf_eq hdec i).trans hd), Option.toList_some, singleton_append]
  by_cases hd : pdu.down i = none
  · rw [hd] at hdown
    convert hl i using 1
    -- a PDU about another channel, or data, leaves what the client has of this one
    have hph : (j.client.receive pdu).phase i = j.client.phase i ∧
        (i ∈ (j.client.receive pdu).replies ↔ i ∈ j.client.replies) := by
      unfold Client.receive
      split
      · exact ⟨rfl, Iff.rfl⟩
      · rename_i pdu
        have hne : i ≠ pdu.channelId := fun he => by
          rw [ServerPdu.down, if_pos he.symm] at hd
          cases hd
        exact ⟨Function.update_of_ne hne _ _, Iff.rfl⟩
      · rename_i pdu
        have hne : i ≠ pdu.channelId := fun he => by
          rw [ServerPdu.down, if_pos he.symm] at hd
          cases hd
        exact ⟨Function.update_of_ne hne _ _, by simp [hne]⟩
      · exact ⟨rfl, Iff.rfl⟩
    unfold view
    rw [hdown]
    simp only [hph.1, hph.2]
    rfl
  · cases pdu with
    | capsRequest _ | softSyncRequest _ => exact absurd rfl hd
    | createRequest pdu =>
      have he : pdu.channelId = i := by
        by_contra hne
        exact hd (if_neg hne)
      subst he
      rw [ServerPdu.down, if_pos rfl] at hdown
      convert (hl pdu.channelId).clientCreate hdown using 1
      simp [view, down, events, Client.receive, Client.setPhase]
    | common pdu =>
      cases pdu with
      | dataFirst _ | data _ | dataFirstCompressed _ | dataCompressed _ => exact absurd rfl hd
      | close pdu =>
        have he : pdu.channelId = i := by
          by_contra hne
          exact hd (if_neg hne)
        subst he
        rw [ServerPdu.down, if_pos rfl] at hdown
        convert (hl pdu.channelId).clientClose hdown using 1
        simp [view, down, events, Client.receive, Client.setPhase]

theorem inv_clientReceive (h : Inv j) {pdu : ServerPdu} (hq : j.toClient = m :: queue)
    (hdec : decodeServerPdu m = .ok pdu) :
    Inv { j with client := j.client.receive pdu, toClient := queue, seen := j.seen ++ [m] } := by
  have hdown : j.down = m :: (queue ++ j.server.output) := by rw [down, hq, cons_append]
  refine ⟨links_clientReceive h.links hq hdec, h.noError, ?_, h.opened, h.nextId, h.pending, h.isPending⟩
  cases h.exchange with
  | waiting h₁ h₂ h₃ h₄ h₅ h₆ =>
    have hm : m ∈ j.left := mem_append_right _ (by rw [hdown]; exact mem_cons_self)
    obtain ⟨p, hp⟩ := h₃ m hm
    cases hp.symm.trans hdec
    rcases h₆ with ⟨hs, -, m', hd⟩ | ⟨-, -, hd⟩ | ⟨-, hd, -⟩
    · have htail := (List.cons.inj (hdown.symm.trans hd)).2
      refine .waiting h₁ h₂ ?_ h₄ h₅ (.inr (.inl ⟨hs, rfl, htail⟩))
      intro m' hm'
      refine h₃ m' ?_
      have : j.left = j.seen ++ [m] ++ (queue ++ j.server.output) := by
        rw [left, hdown, append_assoc, singleton_append]
      rw [this]
      exact hm'
    all_goals exact absurd (hdown.symm.trans hd) nofun
  | ready h₁ h₂ h₃ h₄ h₅ h₆ =>
    refine .ready h₁ h₂ ?_ (fun m' hm' => h₄ m' (by rw [hdown]; exact mem_cons_of_mem _ hm')) h₅ h₆
    have hno := h₄ m (by rw [hdown]; exact mem_cons_self)
    cases pdu with
    | capsRequest p => exact absurd hdec (hno p)
    | createRequest _ | softSyncRequest _ => exact h₃
    | common pdu => cases pdu <;> exact h₃

/-! ### A message leaves the client -/

theorem filterMap_completed (id i : ℕ) (message rest : List UInt8) :
    ((Client.completed id message rest).filterMap fun p => if p.1 = i then some p.2 else none) =
      if id = i then (completes message rest).toList else [] := by
  unfold Client.completed completes
  by_cases hr : rest = [] <;> by_cases hi : id = i <;> simp [hr, hi]

/-- What the client changes when it sends a PDU of the channel `id`: only that channel's view. -/
theorem emits_frame {c' : Client} (h : c.Emits fits pdu c' complete) (hid : pdu.channel = some id)
    {i : ℕ} (hi : i ≠ id) :
    c'.phase i = c.phase i ∧ (i ∈ c'.replies ↔ i ∈ c.replies) ∧
      (complete.filterMap fun p => if p.1 = i then some p.2 else none) = [] := by
  cases h with
  | caps => cases hid
  | accept k | refuse k | answerLate k | close k =>
    cases hid
    exact ⟨Function.update_of_ne hi _ _, Iff.rfl, rfl⟩
  | whole k message =>
    cases hid
    exact ⟨rfl, Iff.rfl, by simp [Ne.symm hi]⟩
  | first k block rest | next k done block rest =>
    cases hid
    exact ⟨Function.update_of_ne hi _ _, Iff.rfl, by rw [filterMap_completed, if_neg (Ne.symm hi)]⟩
  | reply k =>
    cases hid
    exact ⟨rfl, mem_erase_of_ne hi, rfl⟩

theorem closedAfter_of_ne {closed : List ℕ} {i : ℕ} (hid : pdu.channel = some id) (hi : i ≠ id) :
    i ∈ closedAfter closed pdu ↔ i ∈ closed := by
  unfold closedAfter
  split
  · cases hid
    simp [hi]
  · exact Iff.rfl

/-- **A PDU of a channel leaves a client that keeps to the channel's limit.** -/
theorem links_clientSend (hl : ∀ id, Linked id (j.view id))
    (he : j.client.Emits (fun id message => message.length ≤ j.limit id) pdu c complete)
    (hdec : decodeClientPdu m = .ok pdu) (hid : pdu.channel = some id) :
    ∀ i, Linked i (view { j with
      client := c, toServer := j.toServer ++ [m], sent := sentAfter j.sent complete
      closed := closedAfter j.closed pdu } i) := by
  intro i
  by_cases hi : i = id
  · subst hi
    have hup : [m].filterMap (upOf i) = [pdu] := by
      rw [filterMap_cons_some ((upOf_eq hdec i).trans (if_pos hid)), filterMap_nil]
    have hlink := hl i
    cases he with
    | caps => cases hid
    | accept k status hph hst =>
      cases hid
      convert hlink.clientAccept hph hst using 1
      simp [view, down, events, Client.setPhase, sentAfter, closedAfter, hup]
    | refuse k status hph hst =>
      cases hid
      convert hlink.clientRefuse hph hst using 1
      simp [view, down, events, Client.setPhase, sentAfter, closedAfter, hup]
    | answerLate k status hph =>
      cases hid
      convert hlink.clientAnswerLate hph (.createResponse ⟨k, status⟩) using 1
      simp [view, down, events, Client.setPhase, sentAfter, closedAfter, hup]
    | whole k message hph hfit =>
      cases hid
      have hf : ∀ r : MessageReassembler, Matches r none → r.maxSize = j.limit k →
          ∃ r₁, r.take (.next message) = (.ok (some message), r₁) ∧ r₁.maxSize = r.maxSize ∧ Matches r₁ none :=
        fun r hm hmax => ⟨r, take_whole hm (hfit.trans hmax.ge), rfl, hm⟩
      have hnext := hlink.clientFrag hph hf
      convert hnext using 1
      simp [view, down, events, sentAfter, closedAfter, Frag.pdu, hup, hph]
    | first k block rest hph hfit =>
      cases hid
      have hnext := hlink.clientFrag hph fun r hm hmax =>
        take_first block rest hm (hfit.trans hmax.ge)
      convert hnext using 1
      simp [view, down, events, Client.setPhase, sentAfter, closedAfter, Frag.pdu, hup, filterMap_completed]
    | next k done block rest hph =>
      cases hid
      have hnext := hlink.clientFrag hph fun r hm _ => take_next hm
      convert hnext using 1
      simp [view, down, events, Client.setPhase, sentAfter, closedAfter, Frag.pdu, hup, filterMap_completed]
    | close k out hph =>
      cases hid
      convert hlink.clientSendsClose hph using 1
      simp [view, down, events, Client.setPhase, sentAfter, closedAfter, hup]
    | reply k hr =>
      cases hid
      convert hlink.clientReply hr (.common (.close ⟨k⟩)) (k ∈ j.client.replies.erase k) using 1
      simp [view, down, events, sentAfter, closedAfter, hup]
  · obtain ⟨hph, hrep, hsent⟩ := emits_frame he hid hi
    have hup : [m].filterMap (upOf i) = [] := by
      rw [filterMap_cons_none, filterMap_nil]
      rw [upOf_eq hdec, if_neg]
      rw [hid]
      exact fun h => hi (Option.some.inj h).symm
    convert hl i using 1
    simp [view, down, events, sentAfter, hph, hrep, hsent, hup, closedAfter_of_ne hid hi]

/-- A client that has not heard of any channel only answers the Capabilities Request. -/
theorem emits_unknown {c' : Client} (h : c.Emits fits pdu c' complete) (hph : ∀ id, c.phase id = .unknown)
    (hr : c.replies = []) :
    c.capsAsked = true ∧ c' = { c with capsAsked := false } ∧ complete = [] ∧
      ∃ version, pdu = .capsResponse ⟨version⟩ ∧ version ≠ 0 := by
  cases h with
  | caps version ha hv => exact ⟨ha, rfl, rfl, version, rfl, Nat.one_le_iff_ne_zero.mp hv⟩
  | accept k _ h | refuse k _ h | answerLate k _ h | whole k _ h | first k _ _ h | next k _ _ _ h | close k _ h =>
    exact absurd ((hph k).symm.trans h) nofun
  | reply k h =>
    rw [hr] at h
    cases h

/-- A client that has answered the Capabilities Request sends PDUs of channels. -/
theorem emits_channel {c' : Client} (h : c.Emits fits pdu c' complete) (ha : c.capsAsked = false) :
    c'.capsAsked = false ∧ ∃ id, pdu.channel = some id := by
  cases h with
  | caps _ h => exact absurd (ha.symm.trans h) nofun
  | accept k | refuse k | answerLate k | whole k | first k | next k | close k | reply k => exact ⟨ha, k, rfl⟩

theorem inv_clientSend (h : Inv j) (he : j.client.Emits (fun id message => message.length ≤ j.limit id) pdu c complete)
    (hdec : decodeClientPdu m = .ok pdu) :
    Inv { j with
      client := c, toServer := j.toServer ++ [m], sent := sentAfter j.sent complete
      closed := closedAfter j.closed pdu } := by
  cases h.exchange with
  | waiting h₁ h₂ h₃ h₄ h₅ h₆ =>
    obtain ⟨ha, rfl, rfl, version, rfl, hv⟩ := emits_unknown he h₄ h₅
    rcases h₆ with ⟨-, hn, -⟩ | ⟨hs, -, hd⟩ | ⟨hn, -⟩
    · exact absurd (hn.symm.trans ha) nofun
    · refine ⟨fun i => ?_, h.noError, .waiting h₁ h₂ h₃ h₄ h₅ ?_, h.opened, h.nextId, h.pending, h.isPending⟩
      · have hup : upOf i m = none := by rw [upOf_eq hdec]; exact if_neg nofun
        convert h.links i using 1
        simp [view, down, events, sentAfter, closedAfter, hup]
      · exact .inr (.inr ⟨rfl, hd, m, ⟨version⟩, congrArg (· ++ [m]) hs, hdec, hv⟩)
    · exact absurd (hn.symm.trans ha) nofun
  | ready h₁ h₂ h₃ h₄ h₅ h₆ =>
    obtain ⟨ha, id, hid⟩ := emits_channel he h₃
    refine ⟨links_clientSend h.links he hdec hid, h.noError, .ready h₁ h₂ ha h₄ ?_ h₆, h.opened, h.nextId, h.pending,
      h.isPending⟩
    intro m' hm'
    rcases mem_append.mp hm' with hm' | hm'
    · exact h₅ m' hm'
    · rw [mem_singleton.mp hm']
      exact ⟨pdu, id, hdec, hid⟩

/-! ### Runs -/

/-- A client that keeps to the reassembly limit of each channel. -/
def WithinLimit (limit : ℕ) (message : List UInt8) : Prop := message.length ≤ limit

/-- **One step keeps the invariant.** -/
theorem step_inv {j' : Joint D} (h : Inv j) (hs : Step WithinLimit j j') (hlen : j'.opened.length < 2 ^ 32 - 1) :
    Inv j' := by
  cases hs with
  | openChannel name options ho => exact inv_openChannel h hlen ho
  | send id message hm => exact inv_send h hlen hm
  | close id => exact inv_close h hlen id
  | takeOutput => exact inv_takeOutput h
  | pollEvent => exact inv_pollEvent h
  | serverReceive hq => exact (inv_serverReceive h hlen hq).2
  | clientReceive hq hdec => exact inv_clientReceive h hq hdec
  | clientSend he hdec => exact inv_clientSend h he hdec

theorem opened_length_mono {j' : Joint D} (hs : Step fits j j') : j.opened.length ≤ j'.opened.length := by
  cases hs with
  | openChannel name options ho =>
    rw [length_append]
    exact Nat.le_add_right _ _
  | send | close | takeOutput | pollEvent | serverReceive | clientReceive | clientSend => exact le_rfl

theorem start_inv {config : DvcServerConfig D} (hc : create config = some s) (hs : s.start = some s') :
    Inv { server := s' } := by
  unfold create at hc
  split at hc
  · cases hc
    unfold start at hs
    rw [if_pos rfl] at hs
    dsimp only at hs
    split at hs
    · cases hs
    · rename_i w hw
      cases hs
      obtain ⟨p, hp⟩ := decodeServerPdu_capsRequest hw
      refine ⟨fun i => ?_, rfl, .waiting rfl nofun ?_ (fun _ => rfl) rfl (.inl ⟨rfl, rfl, w, rfl⟩), rfl, rfl,
        nodup_nil, nofun⟩
      · have hdown : downOf i w = none := downOf_eq hp i
        have hnil : [w].filterMap (downOf i) = [] := by rw [filterMap_cons_none hdown, filterMap_nil]
        exact .fresh rfl hnil rfl rfl rfl rfl rfl not_mem_nil
      · intro m hm
        rw [mem_singleton.mp hm]
        exact ⟨p, hp⟩
  · cases hc

/-- **The invariant holds in every state of a run with fewer than 2^32 - 1 opens.** -/
theorem reachable_inv (h : Reachable WithinLimit j) (hlen : j.opened.length < 2 ^ 32 - 1) : Inv j := by
  induction h with
  | start hc hs => exact start_inv hc hs
  | step _ hs ih => exact step_inv (ih (lt_of_le_of_lt (opened_length_mono hs) hlen)) hs hlen

theorem Inv.capsFirst (h : Inv j) (hcaps : ∀ m ∈ j.taken, ∀ p, decodeClientPdu m ≠ .ok (.capsResponse p)) :
    ∀ m ∈ j.left, ∀ p, decodeServerPdu m ≠ .ok (.createRequest p) := by
  cases h.exchange with
  | waiting _ _ h₃ =>
    intro m hm p hp
    obtain ⟨q, hq⟩ := h₃ m hm
    exact absurd (hq.symm.trans hp) nofun
  | ready _ _ _ _ _ h₆ =>
    obtain ⟨m, hm, p, hp⟩ := h₆
    exact absurd hp (hcaps m hm p)

theorem isOpen_iff (s : DvcServer D) (id : ℕ) :
    s.isOpen id = true ↔ ∃ c, s.channels.lookup id = some c ∧ c.state = .opened := by
  unfold isOpen
  cases s.channels.lookup id with
  | none => exact ⟨nofun, nofun⟩
  | some c => simp

theorem Inv.agreement (h : Inv j) (hlen : j.opened.length < 2 ^ 32 - 1) : Agreement j where
  receives _ _ hq := (inv_serverReceive h hlen hq).1
  noError := h.noError
  capsFirst := h.capsFirst
  ids := by
    rw [h.opened]
    exact nodup_range'
  outcomes id := (h.links id).outcomes_le
  delivered id := (h.links id).isPrefix
  complete id hc hq := (h.links id).settled (congrArg (List.filterMap (upOf id)) hq) hc
  sameOpen hq hd id := by
    rw [isOpen_iff]
    exact (h.links id).sameOpen (congrArg (List.filterMap (upOf id)) hq) (congrArg (List.filterMap (downOf id)) hd)

/-- **The server and a conforming client agree**, for every interleaving of
the caller's calls, the client's sends and the deliveries. -/
theorem reachable_agreement {j : Joint D} (h : Reachable WithinLimit j) (hlen : j.opened.length < 2 ^ 32 - 1) :
    Agreement j :=
  (reachable_inv h hlen).agreement hlen

/-- The channel of the run below, as the server has it. -/
def firstChannel : Channel Unit where
  name := .a
  priority := ⟨0, by decide⟩
  state := .opened
  reassembler := { maxSize := defaultMaxDvcMessageSize }

/-- One channel was opened with the default limit and accepted by the client. -/
def established : Joint Unit where
  server :=
    { config := {}, state := .ready, offered := 2, version := some 2, nextId := 2
      channels := (∅ : AList fun _ : ℕ => Channel Unit).insert 1 firstChannel
      events := [.capabilitiesReady 2, .channelOpened 1 firstChannel.name] }
  client := Client.setPhase (Client.setPhase {} 1 .asked) 1 (.held none)
  seen := [[0x50, 0, 2, 0, 0xA8, 3, 0xCC, 0x0C, 0x92, 0x24, 0x55, 0x55], [0x10, 1, 0x61, 0]]
  taken := [[0x50, 0, 2, 0], [0x10, 1, 0, 0, 0, 0]]
  opened := [1]
  limit := Function.update (fun _ => 0) 1 defaultMaxDvcMessageSize

set_option maxRecDepth 4000 in
theorem reachable_established (fits : ℕ → List UInt8 → Prop) : Reachable fits established := by
  have h₀ := @Reachable.start Unit fits {} _ _ rfl rfl
  have h₁ := h₀.step (.openChannel [0x61] {} rfl)
  have h₂ := h₁.step .takeOutput
  have h₃ := h₂.step (.clientReceive rfl rfl)
  have h₄ := h₃.step (.clientSend (m := [0x50, 0, 2, 0]) (.caps 2 rfl (by decide)) rfl)
  have h₅ := h₄.step (.serverReceive rfl)
  have h₆ := h₅.step .takeOutput
  have h₇ := h₆.step (.clientReceive rfl rfl)
  have h₈ := h₇.step (.clientSend (m := [0x10, 1, 0, 0, 0, 0]) (.accept 1 0 rfl le_rfl) rfl)
  have h₉ := h₈.step (.serverReceive rfl)
  exact h₉

theorem reachable_agreement_message : ∃ j : Joint Unit, j.sent 1 = [[0x68, 0x69]] ∧ j.toServer = [] ∧ Agreement j := by
  have h₁ := (reachable_established WithinLimit).step
    (.clientSend (m := [0x30, 1, 0x68, 0x69]) (.whole 1 [0x68, 0x69] rfl (by unfold WithinLimit; decide)) rfl)
  have h₂ := h₁.step (.serverReceive rfl)
  exact ⟨_, rfl, rfl, reachable_agreement h₂ (by decide)⟩

/-- The first fragment of a message one byte over the default limit makes `receive` fail. -/
theorem agreement_fails_over_limit :
    ¬ ∀ j : Joint Unit, Reachable (fun _ _ => True) j → j.opened.length < 2 ^ 32 - 1 → Agreement j := by
  intro h
  have hlen : ([] ++ List.replicate 16777217 (0 : UInt8)).length = 16777217 := by
    rw [nil_append, length_replicate]
  have hdec : decodeClientPdu [0x28, 1, 1, 0, 0, 1] =
      .ok (.common (.dataFirst ⟨1, ([] ++ List.replicate 16777217 (0 : UInt8)).length, []⟩)) := by
    rw [hlen]
    rfl
  have hr := (reachable_established fun _ _ => True).step (.clientSend (.first 1 [] _ rfl trivial) hdec)
  have hok := (h _ hr (by decide)).receives _ _ rfl
  cases hok

end Joint

end Drdynvc
end Channels
end Farland
