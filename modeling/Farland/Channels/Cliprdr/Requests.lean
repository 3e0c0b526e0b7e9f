/-
# Requests and answers on the clipboard channel

What a run of `ClipboardServer` does with the requests of both sides. Nothing
takes output or polls events here, so `output` and `events` are all that was
sent and told. `Trace` keeps beside the server what it received: the client's
requests with the ids they get, and how many Format Data Responses.

The client's requests are answered from the front of the queue (`Served`). Of
the server's own data requests at most one is unanswered, and while it is, it
is the outstanding one or a quarantine runs from the tick that gave up on it
(`Awaiting`).

Key theorems: **`call_keeps`**, **`run_uncrossed`**, `crossed`.
-/
import Farland.Channels.Cliprdr.Server

namespace Farland
namespace Channels
namespace Cliprdr

open List ClipboardServer

variable {requests : List Incoming}

/-! ### What was sent and told -/

def isResponse : Pdu → Bool
  | .formatDataResponse .. | .fileContentsResponse .. => true
  | _ => false

def isDataRequest : Pdu → Bool
  | .formatDataRequest _ => true
  | _ => false

/-- The response carries the stream id of the request, if it has one. -/
def Answers : Incoming → Pdu → Prop
  | ⟨_, .formatData _⟩, .formatDataResponse .. => True
  | ⟨_, .fileContents request⟩, .fileContentsResponse _ streamId _ => streamId = request.streamId
  | _, _ => False

/-- The request that an event hands out. -/
def handedOut : ServerEvent → Option Incoming
  | .dataRequested id formatId => some ⟨id, .formatData formatId⟩
  | .fileContentsRequested id request => some ⟨id, .fileContents request⟩
  | _ => none

/-- The data that an event tells. -/
def dataOf : ServerEvent → Option Bytes
  | .dataReceived data => data
  | _ => none

namespace ClipboardServer

variable (s : ClipboardServer)

def responses : List Pdu := s.output.filter isResponse

def handed : List Incoming := s.events.filterMap handedOut

/-- How many Format Data Requests were sent. -/
def sent : ℕ := (s.output.filter isDataRequest).length

/-- The client's requests are left alone. -/
structure Aloof (s s' : ClipboardServer) : Prop where
  incoming : s'.incoming = s.incoming
  current : s'.currentHandedOut = s.currentHandedOut
  error : s'.error = s.error
  nextRequestId : s'.nextRequestId = s.nextRequestId
  output : ∃ more, s'.output = s.output ++ more ∧ more.filter isResponse = []
  events : ∃ more, s'.events = s.events ++ more ∧ more.filterMap handedOut = []

/-- The server's requests are left alone. -/
structure Still (s s' : ClipboardServer) : Prop where
  config : s'.config = s.config
  error : s'.error = s.error
  outgoing : s'.outgoing = s.outgoing
  quarantine : s'.dataQuarantineUntil = s.dataQuarantineUntil
  output : ∃ more, s'.output = s.output ++ more ∧ more.filter isDataRequest = []
  events : ∃ more, s'.events = s.events ++ more ∧ more.filterMap dataOf = []

section

variable {s s' s'' : ClipboardServer}

/-- Nothing new. -/
theorem appends_nil {α β : Type} (l : List α) (f : List α → List β) (h : f [] = []) :
    ∃ more, l = l ++ more ∧ f more = [] := ⟨[], (append_nil l).symm, h⟩

theorem appends_trans {α β : Type} {l l' l'' : List α} {f : List α → List β}
    (happend : ∀ x y, f (x ++ y) = f x ++ f y) (h : ∃ more, l' = l ++ more ∧ f more = [])
    (h' : ∃ more, l'' = l' ++ more ∧ f more = []) : ∃ more, l'' = l ++ more ∧ f more = [] := by
  obtain ⟨more, rfl, hnone⟩ := h
  obtain ⟨rest, rfl, hnone'⟩ := h'
  exact ⟨more ++ rest, append_assoc _ _ _, by rw [happend, hnone, hnone', append_nil]⟩

theorem Aloof.refl (s : ClipboardServer) : Aloof s s := ⟨rfl, rfl, rfl, rfl, appends_nil _ _ rfl, appends_nil _ _ rfl⟩

theorem Aloof.trans (h : Aloof s s') (h' : Aloof s' s'') : Aloof s s'' where
  incoming := h'.incoming.trans h.incoming
  current := h'.current.trans h.current
  error := h'.error.trans h.error
  nextRequestId := h'.nextRequestId.trans h.nextRequestId
  output := appends_trans (fun _ _ => filter_append _ _) h.output h'.output
  events := appends_trans (fun _ _ => filterMap_append) h.events h'.events

theorem Aloof.responses (h : Aloof s s') : s'.responses = s.responses := by
  obtain ⟨more, hmore, hnone⟩ := h.output
  rw [ClipboardServer.responses, hmore, filter_append, hnone, append_nil]
  rfl

theorem Aloof.handed (h : Aloof s s') : s'.handed = s.handed := by
  obtain ⟨more, hmore, hnone⟩ := h.events
  rw [ClipboardServer.handed, hmore, filterMap_append, hnone, append_nil]
  rfl

theorem Still.refl (s : ClipboardServer) : Still s s := ⟨rfl, rfl, rfl, rfl, appends_nil _ _ rfl, appends_nil _ _ rfl⟩

theorem Still.trans (h : Still s s') (h' : Still s' s'') : Still s s'' where
  config := h'.config.trans h.config
  error := h'.error.trans h.error
  outgoing := h'.outgoing.trans h.outgoing
  quarantine := h'.quarantine.trans h.quarantine
  output := appends_trans (fun _ _ => filter_append _ _) h.output h'.output
  events := appends_trans (fun _ _ => filterMap_append) h.events h'.events

theorem Still.sent (h : Still s s') : s'.sent = s.sent := by
  obtain ⟨more, hmore, hnone⟩ := h.output
  rw [ClipboardServer.sent, hmore, filter_append, hnone, append_nil]
  rfl

/-! ### What leaves the requests of both sides alone -/

/-- Neither side's requests are touched. -/
def Apart (s s' : ClipboardServer) : Prop := Aloof s s' ∧ Still s s'

theorem Apart.refl (s : ClipboardServer) : Apart s s := ⟨.refl s, .refl s⟩

theorem Apart.trans (h : Apart s s') (h' : Apart s' s'') : Apart s s'' := ⟨h.1.trans h'.1, h.2.trans h'.2⟩

/-- One PDU sent that is neither a request nor a response, and other fields changed. -/
theorem apart_send (pdu : Pdu) (hresponse : isResponse pdu = false) (hrequest : isDataRequest pdu = false)
    (hincoming : s'.incoming = s.incoming) (hcurrent : s'.currentHandedOut = s.currentHandedOut)
    (herror : s'.error = s.error) (hid : s'.nextRequestId = s.nextRequestId) (hconfig : s'.config = s.config)
    (hout : s'.outgoing = s.outgoing) (hquarantine : s'.dataQuarantineUntil = s.dataQuarantineUntil)
    (hevents : s'.events = s.events) (houtput : s'.output = s.output ++ [pdu]) : Apart s s' := by
  have hsame : ∃ more, s'.events = s.events ++ more ∧ more = [] := ⟨[], by rw [hevents, append_nil], rfl⟩
  obtain ⟨more, hmore, rfl⟩ := hsame
  exact ⟨⟨hincoming, hcurrent, herror, hid, ⟨[pdu], houtput, by simp [hresponse]⟩, ⟨[], hmore, rfl⟩⟩,
    ⟨hconfig, herror, hout, hquarantine, ⟨[pdu], houtput, by simp [hrequest]⟩, ⟨[], hmore, rfl⟩⟩⟩

/-- One event told that is about no request, and other fields changed. -/
theorem apart_emit (e : ServerEvent) (hhanded : handedOut e = none) (hdata : dataOf e = none)
    (hincoming : s'.incoming = s.incoming) (hcurrent : s'.currentHandedOut = s.currentHandedOut)
    (herror : s'.error = s.error) (hid : s'.nextRequestId = s.nextRequestId) (hconfig : s'.config = s.config)
    (hout : s'.outgoing = s.outgoing) (hquarantine : s'.dataQuarantineUntil = s.dataQuarantineUntil)
    (houtput : s'.output = s.output) (hevents : s'.events = s.events ++ [e]) : Apart s s' := by
  have hsame : s'.output = s.output ++ [] := by rw [houtput, append_nil]
  exact ⟨⟨hincoming, hcurrent, herror, hid, ⟨[], hsame, rfl⟩, ⟨[e], hevents, by simp [hhanded]⟩⟩,
    ⟨hconfig, herror, hout, hquarantine, ⟨[], hsame, rfl⟩, ⟨[e], hevents, by simp [hdata]⟩⟩⟩

/-- Only other fields changed. -/
theorem apart_of_same (hincoming : s'.incoming = s.incoming) (hcurrent : s'.currentHandedOut = s.currentHandedOut)
    (herror : s'.error = s.error) (hid : s'.nextRequestId = s.nextRequestId) (hconfig : s'.config = s.config)
    (hout : s'.outgoing = s.outgoing) (hquarantine : s'.dataQuarantineUntil = s.dataQuarantineUntil)
    (houtput : s'.output = s.output) (hevents : s'.events = s.events) : Apart s s' := by
  have hsame : s'.output = s.output ++ [] := by rw [houtput, append_nil]
  have hsame' : s'.events = s.events ++ [] := by rw [hevents, append_nil]
  exact ⟨⟨hincoming, hcurrent, herror, hid, ⟨[], hsame, rfl⟩, ⟨[], hsame', rfl⟩⟩,
    ⟨hconfig, herror, hout, hquarantine, ⟨[], hsame, rfl⟩, ⟨[], hsame', rfl⟩⟩⟩

theorem announce_apart (s : ClipboardServer) (formats : List Format) : Apart s (s.announce formats) := by
  unfold announce
  split_ifs
  · exact .refl s
  · exact apart_of_same rfl rfl rfl rfl rfl rfl rfl rfl rfl
  · exact apart_send (.formatList formats) rfl rfl rfl rfl rfl rfl rfl rfl rfl rfl rfl

theorem becomeReady_apart (s : ClipboardServer) : Apart s s.becomeReady := by
  unfold becomeReady
  split_ifs
  · exact .refl s
  · have hready : Apart s (emit { s with state := .ready } (.ready s.flags)) :=
      apart_emit (.ready s.flags) rfl rfl rfl rfl rfl rfl rfl rfl rfl rfl rfl
    dsimp only
    split
    · exact hready
    · refine hready.trans (Apart.trans ?_ (announce_apart _ _))
      exact apart_of_same rfl rfl rfl rfl rfl rfl rfl rfl rfl

theorem lock_apart (s : ClipboardServer) (clipDataId : ℕ) : Apart s (s.lock clipDataId) := by
  unfold lock
  split_ifs
  · exact apart_send (.lockClipData clipDataId) rfl rfl rfl rfl rfl rfl rfl rfl rfl rfl rfl
  · exact .refl s

theorem unlock_apart (s : ClipboardServer) (clipDataId : ℕ) : Apart s (s.unlock clipDataId) := by
  unfold unlock
  split_ifs
  · exact apart_send (.unlockClipData clipDataId) rfl rfl rfl rfl rfl rfl rfl rfl rfl rfl rfl
  · exact .refl s

theorem handleLock_apart (s : ClipboardServer) (clipDataId : ℕ) : Apart s (s.handleLock clipDataId) := by
  unfold handleLock
  split_ifs
  · exact apart_emit (.locked clipDataId) rfl rfl rfl rfl rfl rfl rfl rfl rfl rfl rfl
  · exact .refl s

theorem handleUnlock_apart (s : ClipboardServer) (clipDataId : ℕ) : Apart s (s.handleUnlock clipDataId) := by
  unfold handleUnlock
  split_ifs
  · exact apart_emit (.unlocked clipDataId) rfl rfl rfl rfl rfl rfl rfl rfl rfl rfl rfl
  · exact .refl s

theorem start_apart (s : ClipboardServer) : Apart s s.start := by
  unfold start
  split_ifs
  · exact .refl s
  · have hsent : Apart s (s.send (.capabilities (some s.config.generalFlags))) :=
      apart_send (.capabilities _) rfl rfl rfl rfl rfl rfl rfl rfl rfl rfl rfl
    refine hsent.trans ?_
    exact apart_send .monitorReady rfl rfl rfl rfl rfl rfl rfl rfl rfl rfl rfl

/-! ### The client's requests -/

variable (incoming : Incoming)

theorem refusal_answers : Answers incoming (refusal incoming) := by
  obtain ⟨id, request⟩ := incoming
  cases request <;> simp [refusal, Answers]

theorem response_answers (data : Option Bytes) : Answers incoming (response incoming.request data) := by
  obtain ⟨id, request⟩ := incoming
  cases request <;> simp [response, Answers]

theorem isResponse_refusal : isResponse (refusal incoming) = true ∧ isDataRequest (refusal incoming) = false := by
  obtain ⟨id, request⟩ := incoming
  cases request <;> exact ⟨rfl, rfl⟩

theorem isResponse_response (request : ClientRequest) (data : Option Bytes) :
    isResponse (response request data) = true ∧ isDataRequest (response request data) = false := by
  cases request <;> exact ⟨rfl, rfl⟩

theorem responses_send {pdu : Pdu} (h : isResponse pdu = true) : (s.send pdu).responses = s.responses ++ [pdu] := by
  unfold responses send
  simp [h]

/-- The requests in the queue wait, those before it were answered, and of those
handed out only the one at the front is still in hand. -/
structure Served (s : ClipboardServer) (requests done old : List Incoming) : Prop where
  requests : requests = done ++ s.incoming
  answered : List.Forall₂ Answers done s.responses
  handed : s.handed = old ++ if s.currentHandedOut then s.incoming.take 1 else []
  old : List.Sublist old done
  current : s.currentHandedOut = true → s.incoming ≠ []

/-- The same, for the right split of the requests. -/
def InOrder (s : ClipboardServer) (requests : List Incoming) : Prop := ∃ done old, Served s requests done old

theorem InOrder.aloof (h : InOrder s requests) (ha : Aloof s s') : InOrder s' requests := by
  obtain ⟨done, old, h⟩ := h
  refine ⟨done, old, ha.incoming ▸ h.requests, ha.responses ▸ h.answered, ?_, h.old, ?_⟩
  · rw [ha.handed, ha.current, ha.incoming]
    exact h.handed
  · rw [ha.current, ha.incoming]
    exact h.current

/-- Requests that may not be answered are refused, until one may. -/
theorem served_nextRequestLoop (now : Time) (requests old : List Incoming) :
    ∀ (l : List Incoming) (s : ClipboardServer) (done : List Incoming), requests = done ++ l →
      List.Forall₂ Answers done s.responses → s.handed = old → List.Sublist old done → s.currentHandedOut = false →
      InOrder (nextRequestLoop now l s) requests
  | [], s, done, hrequests, hanswered, hhanded, hold, hidle => by
    have hidle' : ¬ s.currentHandedOut = true := by simp [hidle]
    refine ⟨done, old, hrequests, hanswered, ?_, hold, fun hcurrent => absurd hcurrent hidle'⟩
    unfold nextRequestLoop
    rw [if_neg hidle', append_nil]
    exact hhanded
  | front :: rest, s, done, hrequests, hanswered, hhanded, hold, hidle => by
    unfold nextRequestLoop
    by_cases hallowed : s.allowed front = true
    · rw [if_pos hallowed]
      obtain ⟨id, request⟩ := front
      have hnext : ∀ e, handedOut e = some ⟨id, request⟩ →
          (s.events ++ [e]).filterMap handedOut = old ++ [⟨id, request⟩] := by
        intro e he
        rw [← hhanded]
        simp [he, handed]
      cases request with
      | formatData formatId =>
        exact ⟨done, old, hrequests, hanswered, hnext (.dataRequested id formatId) rfl, hold, fun _ => by simp [emit]⟩
      | fileContents request =>
        exact ⟨done, old, hrequests, hanswered, hnext (.fileContentsRequested id request) rfl, hold,
          fun _ => by simp [emit]⟩
    · rw [if_neg hallowed]
      apply served_nextRequestLoop now requests old rest (s.send (refusal front)) (done ++ [front])
      · rw [hrequests, append_assoc]
        rfl
      · rw [responses_send (isResponse_refusal front).1]
        exact rel_append hanswered (.cons (refusal_answers front) .nil)
      · exact hhanded
      · exact hold.trans (sublist_append_left _ _)
      · exact hidle

theorem InOrder.nextRequest (h : InOrder s requests) (now : Time) :
    InOrder (s.nextRequest now) requests := by
  unfold ClipboardServer.nextRequest
  by_cases hcurrent : s.currentHandedOut = true
  · rw [if_pos hcurrent]
    exact h
  · rw [if_neg hcurrent]
    obtain ⟨done, old, h⟩ := h
    have hidle : s.currentHandedOut = false := by simpa using hcurrent
    have hhanded := h.handed
    rw [if_neg hcurrent, append_nil] at hhanded
    exact served_nextRequestLoop now requests old s.incoming s done h.requests h.answered hhanded h.old hidle

/-- The request at the front, which is in hand, is answered. -/
theorem Served.respond {done old rest : List Incoming} {front : Incoming} {pdu : Pdu}
    (h : Served s requests done old) (hincoming : s.incoming = front :: rest) (hcurrent : s.currentHandedOut = true)
    (hresponse : isResponse pdu = true) (hanswers : Answers front pdu) :
    InOrder { s.send pdu with incoming := rest, currentHandedOut := false } requests := by
  refine ⟨done ++ [front], old ++ [front], ?_, ?_, ?_, h.old.append (List.Sublist.refl _), fun hfalse => ?_⟩
  · rw [h.requests, hincoming, append_assoc]
    rfl
  · have hresponses := responses_send (s := s) hresponse
    change List.Forall₂ Answers (done ++ [front]) (s.send pdu).responses
    rw [hresponses]
    exact rel_append h.answered (.cons hanswers .nil)
  · have hhanded := h.handed
    rw [if_pos hcurrent, hincoming] at hhanded
    change s.handed = old ++ [front] ++ if false = true then _ else []
    rw [hhanded, if_neg Bool.false_ne_true, append_nil]
    rfl
  · cases hfalse

theorem InOrder.expireCurrent (h : InOrder s requests) (now : Time) :
    InOrder (s.expireCurrent now) requests := by
  unfold ClipboardServer.expireCurrent
  by_cases hexpired : s.currentHandedOut = true ∧ s.currentSince + s.config.answerTimeout ≤ now
  · rw [if_pos hexpired]
    apply InOrder.nextRequest
    obtain ⟨done, old, h⟩ := h
    unfold failCurrent
    cases hincoming : s.incoming with
    | nil => exact ⟨done, old, h⟩
    | cons front rest =>
      exact h.respond hincoming hexpired.1 (isResponse_refusal front).1 (refusal_answers front)
  · rw [if_neg hexpired]
    exact h

theorem InOrder.answer (h : InOrder s requests) (id : ℕ) (data : Option Bytes) :
    InOrder (s.answer id data) requests := by
  unfold ClipboardServer.answer
  by_cases hnot : s.error.isSome = true ∨ s.currentHandedOut = false
  · rw [if_pos hnot]
    exact h
  · rw [if_neg hnot]
    push Not at hnot
    obtain ⟨done, old, h⟩ := h
    cases hincoming : s.incoming with
    | nil => exact ⟨done, old, h⟩
    | cons front rest =>
      dsimp only
      by_cases hid : front.id ≠ id
      · rw [if_pos hid]
        exact ⟨done, old, h⟩
      · rw [if_neg hid]
        apply InOrder.nextRequest
        have hcurrent : s.currentHandedOut = true := by simpa using hnot.2
        exact h.respond hincoming hcurrent (isResponse_response front.request data).1 (response_answers front data)

/-- A request is queued, and handed out if no other is. -/
theorem InOrder.queueRequest (h : InOrder s requests) (request : ClientRequest) (now : Time)
    (hok : (s.queueRequest request now).2 = none) :
    InOrder (s.queueRequest request now).1 (requests ++ [⟨s.nextRequestId, request⟩]) := by
  unfold ClipboardServer.queueRequest at hok ⊢
  by_cases hfull : s.config.maxQueuedRequests ≤ s.incoming.length
  · rw [if_pos hfull] at hok
    cases hok
  · obtain ⟨done, old, h⟩ := h
    have hqueued : Served { s with
        incoming := s.incoming ++ [⟨s.nextRequestId, request⟩], nextRequestId := (s.nextRequestId + 1) % 2 ^ 64 }
        (requests ++ [⟨s.nextRequestId, request⟩]) done old := by
      refine ⟨?_, h.answered, ?_, h.old, fun _ => by simp⟩
      · rw [h.requests, append_assoc]
      · have hhanded := h.handed
        change s.handed = old ++ if s.currentHandedOut = true then (s.incoming ++ [_]).take 1 else []
        by_cases hcurrent : s.currentHandedOut = true
        · obtain ⟨front, rest, hincoming⟩ := exists_cons_of_ne_nil (h.current hcurrent)
          rw [if_pos hcurrent, hincoming] at hhanded
          rw [if_pos hcurrent, hincoming]
          exact hhanded
        · rw [if_neg hcurrent] at hhanded ⊢
          exact hhanded
    dsimp only
    split_ifs
    · exact ⟨done, old, hqueued⟩
    · exact InOrder.nextRequest ⟨done, old, hqueued⟩ now

theorem nextRequestLoop_still (now : Time) : ∀ (l : List Incoming) (s : ClipboardServer),
    Still s (nextRequestLoop now l s)
  | [], s => ⟨rfl, rfl, rfl, rfl, appends_nil _ _ rfl, appends_nil _ _ rfl⟩
  | front :: rest, s => by
    unfold nextRequestLoop
    by_cases hallowed : s.allowed front = true
    · rw [if_pos hallowed]
      obtain ⟨id, request⟩ := front
      cases request with
      | formatData formatId =>
        exact ⟨rfl, rfl, rfl, rfl, appends_nil _ _ rfl, [.dataRequested id formatId], rfl, rfl⟩
      | fileContents request =>
        exact ⟨rfl, rfl, rfl, rfl, appends_nil _ _ rfl, [.fileContentsRequested id request], rfl, rfl⟩
    · rw [if_neg hallowed]
      refine Still.trans ?_ (nextRequestLoop_still now rest (s.send (refusal front)))
      exact ⟨rfl, rfl, rfl, rfl, ⟨[refusal front], rfl, by simp [(isResponse_refusal front).2]⟩, appends_nil _ _ rfl⟩

variable (now : Time)

theorem nextRequest_still : Still s (s.nextRequest now) := by
  unfold nextRequest
  split_ifs
  · exact .refl s
  · exact nextRequestLoop_still now s.incoming s

theorem queueRequest_still (request : ClientRequest) (now : Time) : Still s (s.queueRequest request now).1 := by
  unfold queueRequest
  split_ifs
  · exact .refl s
  · dsimp only
    split_ifs
    · exact ⟨rfl, rfl, rfl, rfl, appends_nil _ _ rfl, appends_nil _ _ rfl⟩
    · refine Still.trans ?_ (nextRequest_still now)
      exact ⟨rfl, rfl, rfl, rfl, appends_nil _ _ rfl, appends_nil _ _ rfl⟩

theorem expireCurrent_still : Still s (s.expireCurrent now) := by
  have hfailed : Still s s.failCurrent := by
    unfold failCurrent
    split
    · exact .refl s
    · rename_i front rest _
      exact ⟨rfl, rfl, rfl, rfl, ⟨[refusal front], rfl, by simp [(isResponse_refusal front).2]⟩, appends_nil _ _ rfl⟩
  unfold expireCurrent
  split_ifs
  · exact hfailed.trans (nextRequest_still now)
  · exact .refl s

theorem answer_still (id : ℕ) (data : Option Bytes) : Still s (s.answer id data) := by
  unfold answer
  split_ifs
  · exact .refl s
  · split
    · exact .refl s
    · rename_i front rest _
      split_ifs
      · exact .refl s
      · refine Still.trans ?_ (nextRequest_still _)
        exact ⟨rfl, rfl, rfl, rfl, ⟨[response front.request data], rfl,
          by simp [(isResponse_response front.request data).2]⟩, appends_nil _ _ rfl⟩

/-! ### The server's requests -/

theorem handleFormatDataResponse_aloof (ok : Bool) (data : Bytes) : Aloof s (s.handleFormatDataResponse ok data) := by
  unfold handleFormatDataResponse
  split_ifs
  · exact ⟨rfl, rfl, rfl, rfl, appends_nil _ _ rfl, [_], rfl, rfl⟩
  · exact ⟨rfl, rfl, rfl, rfl, appends_nil _ _ rfl, [_], rfl, rfl⟩
  · exact ⟨rfl, rfl, rfl, rfl, appends_nil _ _ rfl, appends_nil _ _ rfl⟩

theorem handleFileContentsResponse_aloof (ok : Bool) (streamId : ℕ) (data : Bytes) :
    Aloof s (s.handleFileContentsResponse ok streamId data).1 := by
  unfold handleFileContentsResponse
  split
  · exact .refl s
  · split_ifs
    · exact .refl s
    · exact ⟨rfl, rfl, rfl, rfl, appends_nil _ _ rfl, appends_nil _ _ rfl⟩
    · exact ⟨rfl, rfl, rfl, rfl, appends_nil _ _ rfl, appends_nil _ _ rfl⟩
    · exact ⟨rfl, rfl, rfl, rfl, appends_nil _ _ rfl, [_], rfl, rfl⟩
    · exact ⟨rfl, rfl, rfl, rfl, appends_nil _ _ rfl, [_], rfl, rfl⟩

theorem expireOutgoing_aloof : Aloof s (s.expireOutgoing now) := by
  unfold expireOutgoing
  split
  · exact .refl s
  · split_ifs
    · exact .refl s
    · exact ⟨rfl, rfl, rfl, rfl, appends_nil _ _ rfl, [_], rfl, rfl⟩
    · exact ⟨rfl, rfl, rfl, rfl, appends_nil _ _ rfl, [_], rfl, rfl⟩

theorem endQuarantine_aloof : Aloof s (s.endQuarantine now) := by
  unfold endQuarantine
  split_ifs
  · exact ⟨rfl, rfl, rfl, rfl, appends_nil _ _ rfl, appends_nil _ _ rfl⟩
  · exact .refl s

theorem requestData_aloof (formatId : ℕ) (now : Time) : Aloof s (s.requestData formatId now).1 := by
  unfold requestData
  split_ifs
  · exact ⟨rfl, rfl, rfl, rfl, ⟨[_], rfl, rfl⟩, appends_nil _ _ rfl⟩
  · exact .refl s

theorem requestFileContents_aloof (index flags position size : ℕ) (clipDataId : Option ℕ) (now : Time) :
    Aloof s (s.requestFileContents index flags position size clipDataId now).1 := by
  unfold requestFileContents
  split_ifs
  all_goals first
    | exact .refl s
    | exact ⟨rfl, rfl, rfl, rfl, ⟨[_], rfl, rfl⟩, appends_nil _ _ rfl⟩

/-! ### Messages -/

/-- The request that a message makes. -/
def asked : Pdu → Option ClientRequest
  | .formatDataRequest formatId => some (.formatData formatId)
  | .fileContentsRequest request => some (.fileContents request)
  | _ => none

theorem Aloof.inOrder (ha : Aloof s s') (h : InOrder s requests) :
    InOrder s' (requests ++ []) := by
  rw [append_nil]
  exact h.aloof ha

theorem queued_inOrder (h : InOrder s requests) (request : ClientRequest) (now : Time)
    (hok : (s.becomeReady.queueRequest request now).2 = none) :
    InOrder (s.becomeReady.queueRequest request now).1 (requests ++ [⟨s.nextRequestId, request⟩]) := by
  have hready := (becomeReady_apart s).1
  have hqueued := (h.aloof hready).queueRequest request now hok
  rwa [hready.nextRequestId] at hqueued

theorem handle_inOrder (h : InOrder s requests) (now : Time) (pdu : Pdu) (hok : (s.handle now pdu).2 = none) :
    InOrder (s.handle now pdu).1 (requests ++ ((asked pdu).map fun request => ⟨s.nextRequestId, request⟩).toList) := by
  have hready := (becomeReady_apart s).1
  cases pdu with
  | capabilities generalFlags =>
    refine Aloof.inOrder ?_ h
    simp only [handle]
    split_ifs
    · refine Aloof.trans ?_ (becomeReady_apart { s with clientFlags := generalFlags.getD 0 }).1
      exact ⟨rfl, rfl, rfl, rfl, appends_nil _ _ rfl, appends_nil _ _ rfl⟩
    · exact .refl s
  | monitorReady | tempDirectory path => exact (Aloof.refl s).inOrder h
  | formatList formats =>
    refine Aloof.inOrder (hready.trans ?_) h
    exact ⟨rfl, rfl, rfl, rfl, ⟨[_], rfl, rfl⟩, [_], rfl, rfl⟩
  | formatListResponse ok =>
    refine Aloof.inOrder (hready.trans ?_) h
    exact ⟨rfl, rfl, rfl, rfl, appends_nil _ _ rfl, [_], rfl, rfl⟩
  | lockClipData id => exact (hready.trans (handleLock_apart _ id).1).inOrder h
  | unlockClipData id => exact (hready.trans (handleUnlock_apart _ id).1).inOrder h
  | formatDataRequest formatId => exact queued_inOrder h (.formatData formatId) now hok
  | fileContentsRequest request => exact queued_inOrder h (.fileContents request) now hok
  | formatDataResponse ok data => exact (hready.trans (handleFormatDataResponse_aloof ok data)).inOrder h
  | fileContentsResponse ok streamId data =>
    exact (hready.trans (handleFileContentsResponse_aloof ok streamId data)).inOrder h

/-- A message that fails leaves the requests alone. -/
theorem handle_failed (pdu : Pdu) {e : Error} (hfailed : (s.handle now pdu).2 = some e) :
    Aloof s (s.handle now pdu).1 := by
  have hready := (becomeReady_apart s).1
  have hqueue : ∀ request, (s.becomeReady.queueRequest request now).2 = some e →
      Aloof s (s.becomeReady.queueRequest request now).1 := by
    intro request h
    unfold queueRequest at h ⊢
    by_cases hfull : s.becomeReady.config.maxQueuedRequests ≤ s.becomeReady.incoming.length
    · rw [if_pos hfull]
      exact hready
    · rw [if_neg hfull] at h
      cases h
  cases pdu with
  | capabilities generalFlags =>
    cases hfailed
  | monitorReady | tempDirectory path | formatList formats | formatListResponse ok | lockClipData id
  | unlockClipData id | formatDataResponse ok data => cases hfailed
  | formatDataRequest formatId => exact hqueue (.formatData formatId) hfailed
  | fileContentsRequest request => exact hqueue (.fileContents request) hfailed
  | fileContentsResponse ok streamId data =>
    exact hready.trans (handleFileContentsResponse_aloof ok streamId data)

/-! ### Runs -/

inductive Call where
  | start
  | receive (pdu : Result Pdu) (now : Time)
  | tick (now : Time)
  | announce (formats : List Format)
  | answer (id : ℕ) (data : Option Bytes)
  | requestData (formatId : ℕ) (now : Time)
  | requestFileContents (index flags position size : ℕ) (clipDataId : Option ℕ) (now : Time)
  | lock (clipDataId : ℕ)
  | unlock (clipDataId : ℕ)

def call (s : ClipboardServer) : Call → ClipboardServer
  | .start => s.start
  | .receive pdu now => (s.receive pdu now).1
  | .tick now => s.tick now
  | .announce formats => s.announce formats
  | .answer id data => s.answer id data
  | .requestData formatId now => (s.requestData formatId now).1
  | .requestFileContents index flags position size clipDataId now =>
    (s.requestFileContents index flags position size clipDataId now).1
  | .lock clipDataId => s.lock clipDataId
  | .unlock clipDataId => s.unlock clipDataId

/-- The request that a call takes from the client, with the id it gets. -/
def taken (s : ClipboardServer) : Call → Option Incoming
  | .receive (.ok pdu) _ =>
    if s.error.isNone ∧ s.state ≠ .idle then (asked pdu).map fun request => ⟨s.nextRequestId, request⟩ else none
  | _ => none

/-- The requests of the client are answered in order: those before some point
were, those after it were not; of those handed out at most one is unanswered,
and only its id answers anything. -/
def Orderly (s : ClipboardServer) (requests : List Incoming) : Prop :=
  ∃ done rest old current, requests = done ++ rest ∧ List.Forall₂ Answers done s.responses ∧
    s.handed = old ++ current ∧ List.Sublist old done ∧ current <+: rest.take 1 ∧
    ∀ id data, (∀ i ∈ current, i.id ≠ id) → s.answer id data = s

theorem InOrder.orderly (h : InOrder s requests) : Orderly s requests := by
  obtain ⟨done, old, h⟩ := h
  refine ⟨done, s.incoming, old, _, h.requests, h.answered, h.handed, h.old, ?_, fun id data hid => ?_⟩
  · split_ifs
    · exact prefix_rfl
    · exact nil_prefix
  · unfold ClipboardServer.answer
    by_cases hnot : s.error.isSome = true ∨ s.currentHandedOut = false
    · rw [if_pos hnot]
    · rw [if_neg hnot]
      push Not at hnot
      have hcurrent : s.currentHandedOut = true := by simpa using hnot.2
      cases hincoming : s.incoming with
      | nil => rfl
      | cons front rest =>
        rw [if_pos hcurrent, hincoming] at hid
        have hfront : front.id ≠ id := hid front (by simp)
        dsimp only
        rw [if_pos hfront]

/-- A dead server answers nothing. -/
theorem Orderly.dead {more : List Incoming} (h : InOrder s requests) (hresponses : s'.responses = s.responses)
    (hhanded : s'.handed = s.handed) (hdead : s'.error.isSome = true) : Orderly s' (requests ++ more) := by
  obtain ⟨done, rest, old, current, rfl, hanswered, hold, hsub, hcurrent, -⟩ := h.orderly
  refine ⟨done, rest ++ more, old, current, append_assoc _ _ _, hresponses ▸ hanswered, hhanded ▸ hold, hsub, ?_, ?_⟩
  · refine hcurrent.trans ?_
    cases rest with
    | nil => exact nil_prefix
    | cons i rest => exact prefix_rfl
  · intro id data _
    rw [answer, if_pos (.inl hdead)]

theorem Orderly.aloof (h : Orderly s requests) (ha : Aloof s s')
    (hdead : s.error.isSome = true) : Orderly s' requests := by
  obtain ⟨done, rest, old, current, hrequests, hanswered, hold, hsub, hcurrent, -⟩ := h
  refine ⟨done, rest, old, current, hrequests, ha.responses ▸ hanswered, ha.handed ▸ hold, hsub, hcurrent, ?_⟩
  intro id data _
  rw [answer, if_pos (.inl (ha.error ▸ hdead))]

/-- What a call keeps about the client's requests. -/
structure Keeps (s : ClipboardServer) (requests : List Incoming) : Prop where
  alive : s.error = none → InOrder s requests
  orderly : Orderly s requests

theorem InOrder.keeps (h : InOrder s requests) : Keeps s requests := ⟨fun _ => h, h.orderly⟩

theorem receive_keeps (h : InOrder s requests) (herror : s.error = none) (pdu : Result Pdu)
    (now : Time) : Keeps (s.receive pdu now).1 (requests ++ (taken s (.receive pdu now)).toList) := by
  have hheard : Aloof s { s with lastNow := now } := ⟨rfl, rfl, rfl, rfl, appends_nil _ _ rfl, appends_nil _ _ rfl⟩
  have hnone : ¬ s.error.isSome = true := by simp [herror]
  unfold receive
  rw [if_neg hnone]
  by_cases hidle : s.state = .idle
  · rw [if_pos hidle]
    have htaken : taken s (.receive pdu now) = none := by
      cases pdu with
      | error e => rfl
      | ok pdu => exact if_neg fun hboth => hboth.2 hidle
    rw [htaken]
    exact (hheard.inOrder h).keeps
  · rw [if_neg hidle]
    cases pdu with
    | error e =>
      dsimp only
      split_ifs
      · exact (hheard.inOrder h).keeps
      · exact ⟨fun hdead => (by cases hdead), Orderly.dead h rfl rfl rfl⟩
    | ok pdu =>
      have htaken : taken s (.receive (.ok pdu) now) = (asked pdu).map fun request => ⟨s.nextRequestId, request⟩ :=
        if_pos ⟨by simp [herror], hidle⟩
      rw [htaken]
      dsimp only
      cases hhandled : handle { s with lastNow := now } now pdu with
      | mk s' result =>
        cases result with
        | none =>
          have hkept := handle_inOrder (h.aloof hheard) now pdu (congrArg Prod.snd hhandled)
          rw [hhandled] at hkept
          exact hkept.keeps
        | some e =>
          have haloof := handle_failed now pdu (congrArg Prod.snd hhandled)
          rw [hhandled] at haloof
          have hsame := hheard.trans haloof
          exact ⟨fun hdead => (by cases hdead), Orderly.dead h hsame.responses hsame.handed rfl⟩

theorem tick_inOrder (h : InOrder s requests) (now : Time) :
    InOrder (s.tick now) requests := by
  have hheard : Aloof s { s with lastNow := now } := ⟨rfl, rfl, rfl, rfl, appends_nil _ _ rfl, appends_nil _ _ rfl⟩
  unfold tick
  dsimp only
  split_ifs
  · exact h.aloof hheard
  · have hexpired := (h.aloof hheard).expireCurrent now
    exact (hexpired.aloof (expireOutgoing_aloof now)).aloof (endQuarantine_aloof now)

/-- **A call answers the client's requests in order.** -/
theorem call_keeps (h : InOrder s requests) (herror : s.error = none) (c : Call) :
    Keeps (s.call c) (requests ++ (taken s c).toList) := by
  cases c with
  | start => exact ((start_apart s).1.inOrder h).keeps
  | receive pdu now => exact receive_keeps h herror pdu now
  | tick now => exact ((Aloof.refl _).inOrder (tick_inOrder h now)).keeps
  | announce formats => exact ((announce_apart s formats).1.inOrder h).keeps
  | answer id data => exact ((Aloof.refl _).inOrder (h.answer id data)).keeps
  | requestData formatId now => exact ((requestData_aloof formatId now).inOrder h).keeps
  | requestFileContents index flags position size clipDataId now =>
    exact ((requestFileContents_aloof index flags position size clipDataId now).inOrder h).keeps
  | lock id => exact ((lock_apart s id).1.inOrder h).keeps
  | unlock id => exact ((unlock_apart s id).1.inOrder h).keeps

/-- A dead server stays dead. -/
theorem call_dead (hdead : s.error.isSome = true) (c : Call) : Aloof s (s.call c) ∧ taken s c = none := by
  have hsome : ¬ s.error.isNone = true := by
    cases herror : s.error with
    | none => simp [herror] at hdead
    | some e => simp
  cases c with
  | start => exact ⟨(start_apart s).1, rfl⟩
  | receive pdu now =>
    refine ⟨?_, ?_⟩
    · change Aloof s (s.receive pdu now).1
      rw [receive, if_pos hdead]
      exact .refl s
    · cases pdu with
      | error e => rfl
      | ok pdu => exact if_neg fun hboth => hsome hboth.1
  | tick now =>
    refine ⟨?_, rfl⟩
    change Aloof s (s.tick now)
    unfold tick
    rw [if_pos hdead]
    exact ⟨rfl, rfl, rfl, rfl, appends_nil _ _ rfl, appends_nil _ _ rfl⟩
  | announce formats => exact ⟨(announce_apart s formats).1, rfl⟩
  | answer id data =>
    refine ⟨?_, rfl⟩
    change Aloof s (s.answer id data)
    rw [answer, if_pos (.inl hdead)]
    exact .refl s
  | requestData formatId now => exact ⟨requestData_aloof formatId now, rfl⟩
  | requestFileContents index flags position size clipDataId now =>
    exact ⟨requestFileContents_aloof index flags position size clipDataId now, rfl⟩
  | lock id => exact ⟨(lock_apart s id).1, rfl⟩
  | unlock id => exact ⟨(unlock_apart s id).1, rfl⟩

/-! ### The answers to the server's data requests -/

/-- Requests of which all but at most the last were answered. The last, when it
is not, is outstanding or was given up on, and then a quarantine runs, unless
it is over. -/
structure Awaiting (s : ClipboardServer) (got : ℕ) (gaveUp : List (ℕ × Time)) (now : Time) : Prop where
  got_le : got ≤ s.sent
  sent_le : s.sent ≤ got + 1
  data : ∀ o, s.outgoing = some o → o.fileContents = false → got + 1 = s.sent
  file : ∀ o, s.outgoing = some o → o.fileContents = true → got = s.sent
  quarantine : s.outgoing = none → got + 1 = s.sent → ∃ τ, (got, τ) ∈ gaveUp ∧
    (s.dataQuarantineUntil = some (τ + s.config.requestTimeout) ∨ τ + s.config.requestTimeout ≤ now)

section

variable {got : ℕ} {gaveUp : List (ℕ × Time)} {now now' : Time}

theorem Awaiting.still (h : Awaiting s got gaveUp now) (hs : Still s s') (hnow : now ≤ now') :
    Awaiting s' got gaveUp now' := by
  have hsent := hs.sent
  refine ⟨hsent ▸ h.got_le, hsent ▸ h.sent_le, ?_, ?_, ?_⟩
  · intro o ho hdata
    rw [hsent]
    exact h.data o (hs.outgoing ▸ ho) hdata
  · intro o ho hfile
    rw [hsent]
    exact h.file o (hs.outgoing ▸ ho) hfile
  · intro hnone hopen
    rw [hs.outgoing] at hnone
    rw [hsent] at hopen
    obtain ⟨τ, hmem, huntil⟩ := h.quarantine hnone hopen
    rw [hs.quarantine, hs.config]
    exact ⟨τ, hmem, huntil.imp_right fun hover => hover.trans hnow⟩

/-- A server that waits for no answer. -/
theorem Awaiting.settled (hgot : got = s.sent) (hnone : s.outgoing = none) : Awaiting s got gaveUp now := by
  refine ⟨hgot.le, by omega, ?_, ?_, fun _ hopen => by omega⟩
  all_goals
    intro o ho
    rw [hnone] at ho
    cases ho

theorem Awaiting.respond (h : Awaiting s got gaveUp now) (hgot : got < s.sent) (ok : Bool) (data : Bytes) :
    Awaiting (s.handleFormatDataResponse ok data) (got + 1) gaveUp now := by
  have hlast : got + 1 = s.sent := by
    have hle := h.sent_le
    omega
  unfold handleFormatDataResponse
  by_cases hasked : (s.outgoing.any fun o => ! o.fileContents) = true
  · rw [if_pos hasked]
    exact .settled hlast rfl
  · cases hout : s.outgoing with
    | none => exact .settled hlast rfl
    | some o =>
      have hfile : o.fileContents = true := by simpa [hout] using hasked
      have hsame := h.file o hout hfile
      omega

/-- Data is told only when the request was outstanding, and is its answer. -/
theorem Awaiting.respond_events (h : Awaiting s got gaveUp now) (ok : Bool) (data : Bytes) :
    ∃ more, (s.handleFormatDataResponse ok data).events = s.events ++ more ∧
      ∀ told ∈ more.filterMap dataOf, told = data ∧ got + 1 = s.sent := by
  unfold handleFormatDataResponse
  by_cases hasked : (s.outgoing.any fun o => ! o.fileContents) = true
  · rw [if_pos hasked]
    refine ⟨[_], rfl, fun told htold => ?_⟩
    obtain ⟨o, ho, hdata⟩ := (Option.any_eq_true _ _).mp hasked
    refine ⟨?_, h.data o ho (by simpa using hdata)⟩
    cases ok
    · simp [dataOf] at htold
    · simpa [dataOf] using htold
  · rw [if_neg hasked]
    exact ⟨[], (append_nil _).symm, fun told htold => by simp at htold⟩

theorem Awaiting.fileContents (h : Awaiting s got gaveUp now) (ok : Bool) (streamId : ℕ) (data : Bytes) :
    Awaiting (s.handleFileContentsResponse ok streamId data).1 got gaveUp now := by
  unfold handleFileContentsResponse
  cases hout : s.outgoing with
  | none => exact h
  | some o =>
    dsimp only
    by_cases hother : o.fileContents = false ∨ o.request.streamId ≠ streamId
    · rw [if_pos hother]
      exact h
    · rw [if_neg hother]
      push Not at hother
      have hgot : got = s.sent := h.file o hout (by simpa using hother.1)
      split_ifs
      · exact .settled hgot rfl
      · exact .settled hgot rfl
      · exact .settled hgot rfl
      · exact .settled hgot rfl

/-- What a tick gives up on is remembered with the time. -/
theorem Awaiting.expireOutgoing (h : Awaiting s got gaveUp now) (more : List (ℕ × Time))
    (hmore : (s.outgoing.any fun o => ! o.fileContents) = true → (s.expireOutgoing now).outgoing = none →
      (s.sent - 1, now) ∈ more) : Awaiting (s.expireOutgoing now) got (gaveUp ++ more) now := by
  have hlonger : Awaiting s got (gaveUp ++ more) now := by
    refine ⟨h.got_le, h.sent_le, h.data, h.file, fun hnone hopen => ?_⟩
    obtain ⟨τ, hmem, huntil⟩ := h.quarantine hnone hopen
    exact ⟨τ, mem_append_left _ hmem, huntil⟩
  revert hmore
  unfold ClipboardServer.expireOutgoing
  cases hout : s.outgoing with
  | none => exact fun _ => hlonger
  | some o =>
    dsimp only
    by_cases hearly : now < o.deadline
    · rw [if_pos hearly]
      exact fun _ => hlonger
    · rw [if_neg hearly]
      by_cases hfile : o.fileContents = true
      · rw [if_pos hfile]
        exact fun _ => .settled (h.file o hout hfile) rfl
      · rw [if_neg hfile]
        intro hmore
        have hlast := h.data o hout (by simpa using hfile)
        have hmem : (s.sent - 1, now) ∈ more := hmore (by simpa using hfile) rfl
        have hnumber : s.sent - 1 = got := by omega
        rw [hnumber] at hmem
        refine ⟨h.got_le, h.sent_le, fun o ho => (by cases ho), fun o ho => (by cases ho), fun _ _ => ?_⟩
        exact ⟨now, mem_append_right _ hmem, .inl rfl⟩

theorem Awaiting.endQuarantine (h : Awaiting s got gaveUp now) : Awaiting (s.endQuarantine now) got gaveUp now := by
  unfold ClipboardServer.endQuarantine
  by_cases hover : (s.dataQuarantineUntil.any fun u => decide (u ≤ now)) = true
  · rw [if_pos hover]
    refine ⟨h.got_le, h.sent_le, h.data, h.file, fun hnone hopen => ?_⟩
    obtain ⟨τ, hmem, huntil | huntil⟩ := h.quarantine hnone hopen
    · rw [huntil] at hover
      exact ⟨τ, hmem, .inr (by simpa using hover)⟩
    · exact ⟨τ, hmem, .inr huntil⟩
  · rw [if_neg hover]
    exact h

/-- Where the client keeps its time, nothing can be asked while an answer may
still come. -/
theorem Awaiting.of_canRequest (h : Awaiting s got gaveUp now) (hnow : now ≤ now')
    (hprompt : ∀ g ∈ gaveUp, got ≤ g.1 → now' < g.2 + s.config.requestTimeout) (hcan : s.canRequest now' = true) :
    got = s.sent ∧ s.outgoing = none := by
  simp only [canRequest, Bool.and_eq_true, Option.isNone_iff_eq_none] at hcan
  obtain ⟨⟨-, hnone⟩, hquarantine⟩ := hcan
  refine ⟨?_, hnone⟩
  by_contra hne
  have hopen : got + 1 = s.sent := by
    have hle := h.got_le
    have hle' := h.sent_le
    omega
  obtain ⟨τ, hmem, huntil | huntil⟩ := h.quarantine hnone hopen
  · have hsoon := hprompt (got, τ) hmem le_rfl
    rw [huntil] at hquarantine
    have hover : τ + s.config.requestTimeout ≤ now' := by simpa using hquarantine
    exact absurd hsoon (Nat.not_lt.mpr hover)
  · have hsoon := hprompt (got, τ) hmem le_rfl
    exact absurd hsoon (Nat.not_lt.mpr (huntil.trans hnow))

theorem sent_send_request (formatId : ℕ) : (s.send (.formatDataRequest formatId)).sent = s.sent + 1 := by
  unfold sent send
  rw [filter_append, length_append]
  rfl

theorem Awaiting.requestData (h : Awaiting s got gaveUp now) (hnow : now ≤ now')
    (hprompt : ∀ g ∈ gaveUp, got ≤ g.1 → now' < g.2 + s.config.requestTimeout) (formatId : ℕ) :
    Awaiting (s.requestData formatId now').1 got gaveUp now' := by
  unfold ClipboardServer.requestData
  by_cases hcan : s.canRequest now' = true
  · rw [if_pos hcan]
    obtain ⟨hgot, -⟩ := h.of_canRequest hnow hprompt hcan
    have hsent : (send { s with
        dataQuarantineUntil := none, outgoing := some ⟨false, {}, now' + s.config.requestTimeout⟩ }
        (.formatDataRequest formatId)).sent = s.sent + 1 := sent_send_request formatId
    refine ⟨?_, ?_, ?_, ?_, fun hnone => (by cases hnone)⟩
    · rw [hsent]
      omega
    · rw [hsent]
      omega
    · intro o _ _
      rw [hsent]
      omega
    · intro o ho hfile
      cases ho
      cases hfile
  · rw [if_neg hcan]
    exact h.still (.refl s) hnow

theorem Awaiting.requestFileContents (h : Awaiting s got gaveUp now) (hnow : now ≤ now')
    (hprompt : ∀ g ∈ gaveUp, got ≤ g.1 → now' < g.2 + s.config.requestTimeout) (index flags position size : ℕ)
    (clipDataId : Option ℕ) :
    Awaiting (s.requestFileContents index flags position size clipDataId now').1 got gaveUp now' := by
  unfold ClipboardServer.requestFileContents
  split_ifs with hrefused
  · exact h.still (.refl s) hnow
  all_goals
    push Not at hrefused
    have hcan : s.canRequest now' = true := by simpa using hrefused.1
    obtain ⟨hgot, -⟩ := h.of_canRequest hnow hprompt hcan
    have hsent : ∀ request, (s.send (.fileContentsRequest request)).sent = s.sent := by
      intro request
      unfold sent send
      rw [filter_append]
      exact congrArg List.length (append_nil _)
    refine ⟨(hgot.trans (hsent _).symm).le, ?_, ?_, fun o _ _ => hgot.trans (hsent _).symm,
      fun hnone => (by cases hnone)⟩
    · exact (hsent _).le.trans (by omega)
    · intro o ho hdata
      cases ho
      cases hdata

/-! ### The client's answers, in time -/

def Call.time : Call → Option Time
  | .receive _ now | .tick now | .requestData _ now | .requestFileContents _ _ _ _ _ now => some now
  | _ => none

/-- The Format Data Response that a call takes from the client. -/
def answered (s : ClipboardServer) : Call → Option Bytes
  | .receive (.ok (.formatDataResponse _ data)) _ => if s.error.isNone ∧ s.state ≠ .idle then some data else none
  | _ => none

/-- The data request that a tick gives up on, by its number, and when. -/
def givenUp (s : ClipboardServer) : Call → Option (ℕ × Time)
  | .tick now =>
    if (s.outgoing.any fun o => ! o.fileContents) ∧ (s.tick now).outgoing = none then some (s.sent - 1, now) else none
  | _ => none

/-- Data is told only as the answer to the last request. -/
def Tells (s s' : ClipboardServer) (got : ℕ) (response : Option Bytes) : Prop :=
  ∃ more, s'.events = s.events ++ more ∧ ∀ data ∈ more.filterMap dataOf, response = some data ∧ got + 1 = s'.sent

theorem Still.tells (h : Still s s') (response : Option Bytes) : Tells s s' got response := by
  obtain ⟨more, hmore, hnone⟩ := h.events
  refine ⟨more, hmore, fun data hdata => ?_⟩
  rw [hnone] at hdata
  simp at hdata

/-- What a call keeps about the server's data requests. -/
structure Told (s s' : ClipboardServer) (got got' : ℕ) (gaveUp : List (ℕ × Time)) (now : Time)
    (response : Option Bytes) : Prop where
  alive : s'.error = none → Awaiting s' got' gaveUp now
  tells : Tells s s' got response
  config : s'.config = s.config

theorem Still.told (hs : Still s s') (h : Awaiting s got gaveUp now) (hnow : now ≤ now') :
    Told s s' got got gaveUp now' none :=
  ⟨fun _ => h.still hs hnow, hs.tells none, hs.config⟩

/-- Data comes from no other call. -/
theorem told_of_silent (hconfig : s'.config = s.config) (h : s'.error = none → Awaiting s' got gaveUp now)
    (hevents : ∃ more, s'.events = s.events ++ more ∧ more.filterMap dataOf = []) :
    Told s s' got got gaveUp now none := by
  obtain ⟨more, hmore, hnone⟩ := hevents
  refine ⟨h, ⟨more, hmore, fun data hdata => ?_⟩, hconfig⟩
  rw [hnone] at hdata
  simp at hdata

theorem fileContents_told (h : Awaiting s got gaveUp now) (ok : Bool) (streamId : ℕ) (data : Bytes) :
    Told s (s.handleFileContentsResponse ok streamId data).1 got got gaveUp now none := by
  refine told_of_silent ?_ (fun _ => h.fileContents ok streamId data) ?_
  all_goals
    unfold handleFileContentsResponse
    split
  · rfl
  · split_ifs <;> rfl
  · exact appends_nil _ _ rfl
  · split_ifs
    · exact appends_nil _ _ rfl
    · exact appends_nil _ _ rfl
    · exact appends_nil _ _ rfl
    · exact ⟨[_], rfl, rfl⟩
    · exact ⟨[_], rfl, rfl⟩

theorem respond_told (h : Awaiting s got gaveUp now) (hgot : got < s.sent) (ok : Bool) (data : Bytes) :
    Told s (s.handleFormatDataResponse ok data) got (got + 1) gaveUp now (some data) := by
  have hsent : (s.handleFormatDataResponse ok data).sent = s.sent := by
    unfold handleFormatDataResponse
    split_ifs <;> rfl
  refine ⟨fun _ => h.respond hgot ok data, ?_, ?_⟩
  · obtain ⟨more, hmore, htold⟩ := h.respond_events ok data
    refine ⟨more, hmore, fun told hmem => ?_⟩
    rw [hsent, (htold told hmem).1]
    exact ⟨rfl, (htold told hmem).2⟩
  · unfold handleFormatDataResponse
    split_ifs <;> rfl

/-- After what touches no request. -/
theorem Told.after {s₀ : ClipboardServer} {got' : ℕ} {response : Option Bytes} (hs : Still s₀ s)
    (h : Told s s' got got' gaveUp now response) : Told s₀ s' got got' gaveUp now response := by
  refine ⟨h.alive, ?_, h.config.trans hs.config⟩
  obtain ⟨more, hmore, hnone⟩ := hs.events
  obtain ⟨rest, hrest, htold⟩ := h.tells
  refine ⟨more ++ rest, by rw [hrest, hmore, append_assoc], fun data hdata => ?_⟩
  rw [filterMap_append, hnone] at hdata
  exact htold data hdata

/-- The answer that a message brings. -/
def brings : Pdu → Option Bytes
  | .formatDataResponse _ data => some data
  | _ => none

theorem handle_told (h : Awaiting s got gaveUp now) (pdu : Pdu) (hgot : (brings pdu).isSome = true → got < s.sent) :
    Told s (s.handle now pdu).1 got (got + (brings pdu).toList.length) gaveUp now (brings pdu) := by
  have hready := (becomeReady_apart s).2
  have hawaits := h.still hready le_rfl
  cases pdu with
  | capabilities generalFlags =>
    refine Still.told ?_ h le_rfl
    simp only [handle]
    split_ifs
    · refine Still.trans ?_ (becomeReady_apart { s with clientFlags := generalFlags.getD 0 }).2
      exact ⟨rfl, rfl, rfl, rfl, appends_nil _ _ rfl, appends_nil _ _ rfl⟩
    · exact .refl s
  | monitorReady | tempDirectory path => exact Still.told (.refl s) h le_rfl
  | formatList formats =>
    refine Still.told (hready.trans ?_) h le_rfl
    exact ⟨rfl, rfl, rfl, rfl, ⟨[_], rfl, rfl⟩, [_], rfl, rfl⟩
  | formatListResponse ok =>
    refine Still.told (hready.trans ?_) h le_rfl
    exact ⟨rfl, rfl, rfl, rfl, appends_nil _ _ rfl, [_], rfl, rfl⟩
  | lockClipData id => exact Still.told (hready.trans (handleLock_apart _ id).2) h le_rfl
  | unlockClipData id => exact Still.told (hready.trans (handleUnlock_apart _ id).2) h le_rfl
  | formatDataRequest formatId | fileContentsRequest request =>
    exact Still.told (hready.trans (queueRequest_still _ now)) h le_rfl
  | formatDataResponse ok data =>
    have hsent : got < s.becomeReady.sent := by
      rw [hready.sent]
      exact hgot rfl
    exact (respond_told hawaits hsent ok data).after hready
  | fileContentsResponse ok streamId data => exact (fileContents_told hawaits ok streamId data).after hready

theorem receive_told (h : Awaiting s got gaveUp now) (herror : s.error = none) (hnow : now ≤ now') (pdu : Result Pdu)
    (hgot : (answered s (.receive pdu now')).isSome = true → got < s.sent) :
    Told s (s.receive pdu now').1 got (got + (answered s (.receive pdu now')).toList.length) gaveUp now'
      (answered s (.receive pdu now')) := by
  have hheard : Still s { s with lastNow := now' } := ⟨rfl, rfl, rfl, rfl, appends_nil _ _ rfl, appends_nil _ _ rfl⟩
  have hnone : ¬ s.error.isSome = true := by simp [herror]
  revert hgot
  unfold receive
  rw [if_neg hnone]
  by_cases hidle : s.state = .idle
  · rw [if_pos hidle]
    have hanswered : answered s (.receive pdu now') = none := by
      cases pdu with
      | error e => rfl
      | ok pdu => cases pdu <;> first | rfl | exact if_neg fun hboth => hboth.2 hidle
    rw [hanswered]
    exact fun _ => hheard.told h hnow
  · rw [if_neg hidle]
    cases pdu with
    | error e =>
      intro _
      dsimp only
      split_ifs
      · exact hheard.told h hnow
      · exact ⟨fun hdead => (by cases hdead), ⟨[], (append_nil _).symm, fun data hdata => by simp at hdata⟩, rfl⟩
    | ok pdu =>
      have hanswered : answered s (.receive (.ok pdu) now') = brings pdu := by
        cases pdu <;> first | rfl | exact if_pos ⟨by simp [herror], hidle⟩
      rw [hanswered]
      intro hgot
      have hhandled := (handle_told (h.still hheard hnow) pdu hgot).after hheard
      dsimp only
      revert hhandled
      generalize handle { s with lastNow := now' } now' pdu = outcome
      obtain ⟨s', e⟩ := outcome
      intro hhandled
      cases e with
      | none => exact hhandled
      | some e => exact ⟨fun hdead => (by cases hdead), hhandled.tells, hhandled.config⟩

theorem expireOutgoing_silent (s : ClipboardServer) (now : Time) : (s.expireOutgoing now).config = s.config ∧
    ∃ more, (s.expireOutgoing now).events = s.events ++ more ∧ more.filterMap dataOf = [] := by
  unfold expireOutgoing
  split
  · exact ⟨rfl, appends_nil _ _ rfl⟩
  · split_ifs
    · exact ⟨rfl, appends_nil _ _ rfl⟩
    · exact ⟨rfl, [_], rfl, rfl⟩
    · exact ⟨rfl, [_], rfl, rfl⟩

theorem endQuarantine_same (s : ClipboardServer) (now : Time) : (s.endQuarantine now).config = s.config ∧
    (s.endQuarantine now).events = s.events ∧ (s.endQuarantine now).outgoing = s.outgoing := by
  unfold endQuarantine
  split_ifs <;> exact ⟨rfl, rfl, rfl⟩

theorem tick_told (h : Awaiting s got gaveUp now) (herror : s.error = none) (hnow : now ≤ now') :
    Told s (s.tick now') got got (gaveUp ++ (givenUp s (.tick now')).toList) now' none := by
  have hheard : Still s { s with lastNow := now' } := ⟨rfl, rfl, rfl, rfl, appends_nil _ _ rfl, appends_nil _ _ rfl⟩
  have hstill := hheard.trans (expireCurrent_still now')
  have hnone : ¬ s.error.isSome = true := by simp [herror]
  have htick : s.tick now' = ((expireCurrent { s with lastNow := now' } now').expireOutgoing now').endQuarantine
    now' := by
    unfold tick
    exact if_neg hnone
  have hgaveUp : ((expireCurrent { s with lastNow := now' } now').outgoing.any fun o => ! o.fileContents) = true →
      ((expireCurrent { s with lastNow := now' } now').expireOutgoing now').outgoing = none →
      ((expireCurrent { s with lastNow := now' } now').sent - 1, now') ∈ (givenUp s (.tick now')).toList := by
    intro hasked hended
    rw [hstill.outgoing] at hasked
    rw [hstill.sent]
    have hover : (s.tick now').outgoing = none := by
      rw [htick, (endQuarantine_same _ now').2.2]
      exact hended
    have hgiven : givenUp s (.tick now') = some (s.sent - 1, now') := if_pos ⟨hasked, hover⟩
    rw [hgiven]
    exact mem_singleton_self _
  obtain ⟨hconfig, hevents⟩ := expireOutgoing_silent (expireCurrent { s with lastNow := now' } now') now'
  obtain ⟨hconfig', hevents', -⟩ :=
    endQuarantine_same ((expireCurrent { s with lastNow := now' } now').expireOutgoing now') now'
  have hawaits := ((h.still hstill hnow).expireOutgoing _ hgaveUp).endQuarantine
  rw [htick]
  refine Told.after hstill (told_of_silent (hconfig'.trans hconfig) (fun _ => hawaits) ?_)
  rw [hevents']
  exact hevents

theorem requestData_same (s : ClipboardServer) (formatId : ℕ) (now : Time) :
    (s.requestData formatId now).1.config = s.config ∧ (s.requestData formatId now).1.events = s.events := by
  unfold requestData
  split_ifs <;> exact ⟨rfl, rfl⟩

theorem requestFileContents_same (s : ClipboardServer) (index flags position size : ℕ) (clipDataId : Option ℕ)
    (now : Time) : (s.requestFileContents index flags position size clipDataId now).1.config = s.config ∧
      (s.requestFileContents index flags position size clipDataId now).1.events = s.events := by
  unfold requestFileContents
  split_ifs <;> exact ⟨rfl, rfl⟩

/-- **A call tells only the answer to the last data request.** -/
theorem call_told (h : Awaiting s got gaveUp now) (herror : s.error = none) (c : Call)
    (hgot : (answered s c).isSome = true → got < s.sent)
    (htime : ∀ now' ∈ c.time, now ≤ now' ∧ ∀ g ∈ gaveUp, got ≤ g.1 → now' < g.2 + s.config.requestTimeout) :
    Told s (s.call c) got (got + (answered s c).toList.length) (gaveUp ++ (givenUp s c).toList) (c.time.getD now)
      (answered s c) := by
  cases c with
  | receive pdu now' =>
    have hreceived := receive_told h herror (htime now' rfl).1 pdu hgot
    exact (append_nil gaveUp).symm ▸ hreceived
  | tick now' => exact tick_told h herror (htime now' rfl).1
  | start => exact (append_nil gaveUp).symm ▸ (start_apart s).2.told h le_rfl
  | announce formats => exact (append_nil gaveUp).symm ▸ (announce_apart s formats).2.told h le_rfl
  | answer id data => exact (append_nil gaveUp).symm ▸ (answer_still id data).told h le_rfl
  | lock id => exact (append_nil gaveUp).symm ▸ (lock_apart s id).2.told h le_rfl
  | unlock id => exact (append_nil gaveUp).symm ▸ (unlock_apart s id).2.told h le_rfl
  | requestData formatId now' =>
    obtain ⟨hnow, hprompt⟩ := htime now' rfl
    have hawaits := h.requestData hnow hprompt formatId
    obtain ⟨hconfig, hevents⟩ := requestData_same s formatId now'
    exact (append_nil gaveUp).symm ▸ told_of_silent hconfig (fun _ => hawaits) ⟨[], by simp [call, hevents], rfl⟩
  | requestFileContents index flags position size clipDataId now' =>
    obtain ⟨hnow, hprompt⟩ := htime now' rfl
    have hawaits := h.requestFileContents hnow hprompt index flags position size clipDataId
    obtain ⟨hconfig, hevents⟩ := requestFileContents_same s index flags position size clipDataId now'
    exact (append_nil gaveUp).symm ▸ told_of_silent hconfig (fun _ => hawaits) ⟨[], by simp [call, hevents], rfl⟩

/-- A dead server tells nothing. -/
theorem call_dead_tells (hdead : s.error.isSome = true) (c : Call) : Tells s (s.call c) got (answered s c) := by
  have hnot : ∀ now, s.canRequest now = false := by
    intro now
    cases herror : s.error with
    | none => simp [herror] at hdead
    | some e => simp [canRequest, herror]
  cases c with
  | start => exact (start_apart s).2.tells _
  | receive pdu now =>
    have hsame : s.call (.receive pdu now) = s := by
      change (s.receive pdu now).1 = s
      rw [receive, if_pos hdead]
    rw [hsame]
    exact (Still.refl s).tells _
  | tick now =>
    have hsame : s.call (.tick now) = { s with lastNow := now } := if_pos hdead
    rw [hsame]
    exact Still.tells ⟨rfl, rfl, rfl, rfl, appends_nil _ _ rfl, appends_nil _ _ rfl⟩ _
  | announce formats => exact (announce_apart s formats).2.tells _
  | answer id data => exact (answer_still id data).tells _
  | requestData formatId now =>
    have hsame : s.call (.requestData formatId now) = s := by
      change (s.requestData formatId now).1 = s
      rw [requestData, hnot now, if_neg Bool.false_ne_true]
    rw [hsame]
    exact (Still.refl s).tells _
  | requestFileContents index flags position size clipDataId now =>
    have hsame : s.call (.requestFileContents index flags position size clipDataId now) = s := by
      change (s.requestFileContents index flags position size clipDataId now).1 = s
      rw [requestFileContents, if_pos (.inl (hnot now))]
    rw [hsame]
    exact (Still.refl s).tells _
  | lock id => exact (lock_apart s id).2.tells _
  | unlock id => exact (unlock_apart s id).2.tells _

end

end

/-- Data that was told, the response it came with, by its number, and how many
data requests had been sent. -/
structure News where
  data : Bytes
  response : Option (ℕ × Bytes)
  sent : ℕ
  deriving DecidableEq

/-- The data is the answer to the last request sent: the client answers in order. -/
def News.Uncrossed (d : News) : Prop := ∃ k, d.response = some (k, d.data) ∧ k + 1 = d.sent

/-- A server and what passed. -/
structure Trace where
  server : ClipboardServer
  requests : List Incoming := []
  /-- The Format Data Responses that came. -/
  got : ℕ := 0
  gaveUp : List (ℕ × Time) := []
  now : Time := 0
  told : List News := []
  deriving DecidableEq

namespace Trace

def next (t : Trace) (c : Call) : Trace :=
  let s := t.server.call c
  { server := s
    requests := t.requests ++ (t.server.taken c).toList
    got := t.got + (t.server.answered c).toList.length
    gaveUp := t.gaveUp ++ (t.server.givenUp c).toList
    now := c.time.getD t.now
    told := t.told ++ ((s.events.drop t.server.events.length).filterMap dataOf).map fun data =>
      ⟨data, (t.server.answered c).map fun response => (t.got, response), s.sent⟩ }

variable (within : Time → Time → Prop)

/-- The clock does not go back, a response answers a request, and the answer to
a request given up on comes within the request timeout. -/
def Prompt (t : Trace) (c : Call) : Prop :=
  ((t.server.answered c).isSome = true → t.got < t.server.sent) ∧
    ∀ now ∈ c.time, t.now ≤ now ∧
      ∀ g ∈ t.gaveUp, t.got ≤ g.1 → within now (g.2 + t.server.config.requestTimeout)

def run : Trace → List Call → Trace
  | t, [] => t
  | t, c :: calls => run (t.next c) calls

/-- The client answers each data request once, in order and in time. -/
def Obliging : Trace → List Call → Prop
  | _, [] => True
  | t, c :: calls => t.Prompt within c ∧ Obliging (t.next c) calls

variable (config : ServerConfig)

def fresh : Trace := { server := { config } }

theorem next_keeps {t : Trace} (h : Keeps t.server t.requests) (c : Call) :
    Keeps (t.next c).server (t.next c).requests := by
  cases herror : t.server.error with
  | none => exact call_keeps (h.alive herror) herror c
  | some e =>
    have hdead : t.server.error.isSome = true := by simp [herror]
    obtain ⟨haloof, htaken⟩ := call_dead hdead c
    have hrequests : (t.next c).requests = t.requests := by simp [next, htaken]
    rw [hrequests]
    refine ⟨fun hnone => ?_, h.orderly.aloof haloof hdead⟩
    have hsame : t.server.error = none := haloof.error.symm.trans hnone
    rw [herror] at hsame
    cases hsame

/-- What is kept of the server's data requests. -/
structure Uncrossed (t : Trace) : Prop where
  awaiting : t.server.error = none → Awaiting t.server t.got t.gaveUp t.now
  told : ∀ d ∈ t.told, d.Uncrossed

theorem told_next {t : Trace} (h : ∀ d ∈ t.told, d.Uncrossed) {c : Call}
    (htells : Tells t.server (t.server.call c) t.got (t.server.answered c)) : ∀ d ∈ (t.next c).told, d.Uncrossed := by
  intro d hd
  obtain hold | hnew := mem_append.mp hd
  · exact h d hold
  · obtain ⟨more, hmore, htold⟩ := htells
    rw [hmore, drop_left] at hnew
    obtain ⟨data, hdata, rfl⟩ := mem_map.mp hnew
    obtain ⟨hresponse, hlast⟩ := htold data hdata
    exact ⟨t.got, by simp [hresponse], hlast⟩

theorem next_uncrossed {t : Trace} (h : Uncrossed t) {c : Call} (hprompt : t.Prompt (· < ·) c) :
    Uncrossed (t.next c) := by
  cases herror : t.server.error with
  | none =>
    have htold := call_told (h.awaiting herror) herror c hprompt.1 hprompt.2
    exact ⟨htold.alive, told_next h.told htold.tells⟩
  | some e =>
    have hdead : t.server.error.isSome = true := by simp [herror]
    refine ⟨fun hnone => ?_, told_next h.told (call_dead_tells hdead c)⟩
    have hsame : t.server.error = none := (call_dead hdead c).1.error.symm.trans hnone
    rw [herror] at hsame
    cases hsame

theorem run_keeps : ∀ (calls : List Call) {t : Trace}, Keeps t.server t.requests →
    Keeps (t.run calls).server (t.run calls).requests
  | [], _, h => h
  | c :: calls, _, h => run_keeps calls (next_keeps h c)

theorem run_uncrossedFrom : ∀ (calls : List Call) {t : Trace}, Uncrossed t → t.Obliging (· < ·) calls →
    Uncrossed (t.run calls)
  | [], _, h, _ => h
  | _ :: calls, _, h, hobliging => run_uncrossedFrom calls (next_uncrossed h hobliging.1) hobliging.2

theorem fresh_keeps : Keeps (fresh config).server (fresh config).requests := by
  refine InOrder.keeps ⟨[], [], rfl, .nil, rfl, .refl _, fun hfalse => ?_⟩
  cases hfalse

theorem fresh_uncrossed : Uncrossed (fresh config) := ⟨fun _ => .settled rfl rfl, fun d hd => (by cases hd)⟩

/-- **Requests and answers are not crossed.** The client's requests are answered
in order, each once, with one in hand at a time, and an answer for any other
does nothing. Against a client that answers in time the data told is the answer
to the last request sent. -/
theorem run_uncrossed (config : ServerConfig) (calls : List Call) :
    Orderly ((fresh config).run calls).server ((fresh config).run calls).requests ∧
      ((fresh config).Obliging (· < ·) calls → ∀ d ∈ ((fresh config).run calls).told, d.Uncrossed) :=
  ⟨(run_keeps calls (fresh_keeps config)).orderly,
    fun hobliging => (run_uncrossedFrom calls (fresh_uncrossed config) hobliging).told⟩

instance (within : Time → Time → Prop) [DecidableRel within] (t : Trace) (c : Call) : Decidable (t.Prompt within c) :=
  inferInstanceAs (Decidable (_ ∧ _))

/-- Whether a client obliges can be tested. -/
def decideObliging [DecidableRel within] :
    ∀ (calls : List Call) (t : Trace), Decidable (t.Obliging within calls)
  | [], _ => inferInstanceAs (Decidable True)
  | c :: calls, t =>
    have := decideObliging calls (t.next c)
    inferInstanceAs (Decidable (t.Prompt within c ∧ (t.next c).Obliging within calls))

instance (within : Time → Time → Prop) [DecidableRel within] (calls : List Call) (t : Trace) :
    Decidable (t.Obliging within calls) := decideObliging within calls t

instance (d : News) : Decidable d.Uncrossed :=
  decidable_of_iff (d.response.any fun r => r.2 == d.data && r.1 + 1 == d.sent) (by
    simp only [News.Uncrossed, Option.any_eq_true, Bool.and_eq_true, beq_iff_eq]
    constructor
    · rintro ⟨⟨k, data⟩, hresponse, rfl, hlast⟩
      exact ⟨k, hresponse, hlast⟩
    · rintro ⟨k, hresponse, hlast⟩
      exact ⟨(k, d.data), hresponse, rfl, hlast⟩)

/-- Two requests, the first given up on; the second is made at `retry`, the first
is answered at `late`, and the second after it. -/
def givenUpOn (retry late : Time) : List Call :=
  [.start, .receive (.ok (.capabilities (some 0x3E))) 0, .requestData 13 0, .tick 30000, .requestData 1 retry,
    .receive (.ok (.formatDataResponse true [0x41])) late, .requestData 2 late,
    .receive (.ok (.formatDataResponse true [0x42])) late]

theorem givenUpOn_uncrossed : ((fresh {}).run (givenUpOn 59999 59999)).told = [⟨[0x42], some (1, [0x42]), 2⟩] ∧
    ∀ d ∈ ((fresh {}).run (givenUpOn 59999 59999)).told, d.Uncrossed :=
  ⟨by decide +kernel, (run_uncrossed {} (givenUpOn 59999 59999)).2 (by decide +kernel)⟩

/-- An answer that comes as the quarantine ends is told for the request made then. -/
theorem crossed : ¬ ∀ (config : ServerConfig) (calls : List Call),
    Orderly ((fresh config).run calls).server ((fresh config).run calls).requests ∧
      ((fresh config).Obliging (· ≤ ·) calls → ∀ d ∈ ((fresh config).run calls).told, d.Uncrossed) := by
  intro h
  have htold := (h {} (givenUpOn 60000 60000)).2 (by decide +kernel)
  exact absurd htold (by decide +kernel)

end Trace
end ClipboardServer
end Cliprdr
end Channels
end Farland
