/-
# The client's stream

What the client sends on the graphics channel is cut into PDUs by
`frame_pdu`, whatever the pieces it arrives in (`framing`), and its
acknowledgements say which frames still wait. `history` keeps the frames
ended, the acknowledgements and the resets of a run as the marks of
`Lib/InFlight`.

Key theorems: **`receive_append`**, `step_acks`, **`run_stream`**.
-/
import Farland.Channels.Rdpgfx.Cache
import Farland.Lib.Framing
import Farland.Lib.InFlight

namespace Farland
namespace Channels
namespace Rdpgfx

open LittleEndian List Option Nat Writer

/-! ### The frames of the stream -/

variable {stream : List UInt8}

/-- The length in a header, which its first eight bytes hold. -/
theorem framePdu_eq (h : headerSize ≤ stream.length) (maxSize : ℕ) :
    framePdu stream maxSize = if leValue ((stream.drop 4).take 4) < headerSize then
        fail .invalidLength "pduLength below the RDPGFX_HEADER size" 4
      else if leValue ((stream.drop 4).take 4) > maxSize then
        fail .limitExceeded "RDPGFX PDU above the size limit" 4
      else if leValue ((stream.drop 4).take 4) > stream.length then .ok none
      else .ok (some (leValue ((stream.drop 4).take 4))) := by
  have hlen : 8 ≤ stream.length := h
  have hskip : Reader.skip 4 ⟨stream, 0⟩ = .ok ((), ⟨stream.drop 4, 4⟩) := by
    unfold Reader.skip Reader.bytes
    rw [if_neg (by simp only; omega)]
  have hread : Reader.u32le ⟨stream.drop 4, 4⟩ = .ok (leValue ((stream.drop 4).take 4),
    ⟨(stream.drop 4).drop 4, 8⟩) := by
    unfold Reader.u32le Reader.readLe Reader.bytes
    rw [if_neg (by simp only [length_drop]; omega)]
  have hat : Reader.at_ ⟨stream.drop 4, 4⟩ = .ok (4, ⟨stream.drop 4, 4⟩) := rfl
  unfold framePdu
  rw [if_neg (by simp only [headerSize]; omega), Parse.bind_ok hskip, Parse.bind_ok hat, Parse.bind_ok hread]
  split_ifs <;> rfl

theorem framePdu_append (h : headerSize ≤ stream.length) (more : List UInt8) :
    ((stream ++ more).drop 4).take 4 = (stream.drop 4).take 4 := by
  have hlen : 8 ≤ stream.length := h
  rw [drop_append_of_le_length (by omega), take_append_of_le_length (by rw [length_drop]; omega)]

theorem framePdu_some {maxSize n : ℕ} (h : framePdu stream maxSize = .ok (some n)) :
    headerSize ≤ stream.length ∧ n = leValue ((stream.drop 4).take 4) ∧ headerSize ≤ n ∧ n ≤ maxSize ∧
      n ≤ stream.length := by
  by_cases hlen : headerSize ≤ stream.length
  · rw [framePdu_eq hlen] at h
    split_ifs at h with hsmall hlarge hwhole
    · cases h
    · cases h
    · cases h
    · cases h
      exact ⟨hlen, rfl, by omega, by omega, by omega⟩
  · rw [framePdu, if_pos (by omega)] at h
    cases h

namespace GfxServer

variable {s s' : GfxServer}

/-- Something was sent and told before. -/
def after (s : GfxServer) (output : List (List UInt8)) (events : List GfxEvent) (input : List UInt8) : GfxServer :=
  { s with output := output ++ s.output, events := events ++ s.events, input := input }

theorem send_after (s : GfxServer) (pdu : Pdu) (output : List (List UInt8)) (events : List GfxEvent)
    (input : List UInt8) :
    (s.after output events input).send pdu = (s.send pdu).map fun s => s.after output events input := by
  unfold send
  cases encode pdu with
  | none => rfl
  | some bytes => simp [after]

/-- A repeated Caps Advertise that is not allowed. -/
def refusesAdvertise (s : GfxServer) : Bool :=
  s.state == .ready && match s.negotiated with
    | some n => decide (n.version < CapVersion.v10_3)
    | none => true

/-- The protocol as it is when capabilities are negotiated. -/
def renewed (s : GfxServer) : GfxServer := if s.state == .ready then s.resetProtocol else s

def confirm (s : GfxServer) (capsSets : List CapabilitySet) (reset : Bool) : Option GfxServer :=
  match negotiate capsSets s.config with
  | none => some (s.fail "the client offered no RDPGFX capability set farland supports")
  | some n =>
    (send { s with negotiated := some n, state := .ready } (.capsConfirm (makeCapabilitySet n.version n.flags))).bind
      fun s => some { s with events := s.events ++ [.ready n reset] }

theorem onCapsAdvertise_eq (s : GfxServer) (capsSets : List CapabilitySet) : s.onCapsAdvertise capsSets =
    if s.refusesAdvertise then some (s.fail "Caps Advertise repeated after confirming a version before 10.3")
    else s.renewed.confirm capsSets (s.state == .ready) := rfl

section

variable (output : List (List UInt8)) (events : List GfxEvent) (input : List UInt8)

theorem fail_after (s : GfxServer) (reason : String) :
    (s.after output events input).fail reason = (s.fail reason).after output events input := by
  simp [fail, after]

/-- One message sent and one event told. -/
theorem send_emit_after (s : GfxServer) (pdu : Pdu) (event : GfxEvent) :
    (((s.after output events input).send pdu).bind fun s => some { s with events := s.events ++ [event] }) =
      ((s.send pdu).bind fun s => some { s with events := s.events ++ [event] }).map
        fun s => s.after output events input := by
  rw [send_after]
  cases s.send pdu with
  | none => rfl
  | some s => simp [after]

theorem onCapsAdvertise_after (s : GfxServer) (capsSets : List CapabilitySet) :
    (s.after output events input).onCapsAdvertise capsSets =
      (s.onCapsAdvertise capsSets).map fun s => s.after output events input := by
  have hrenewed : (s.after output events input).renewed = s.renewed.after output events input := by
    unfold renewed
    change (if (s.state == .ready) = true then _ else _) = _
    split_ifs <;> rfl
  rw [onCapsAdvertise_eq, onCapsAdvertise_eq, hrenewed]
  change (if s.refusesAdvertise = true then _ else _) = _
  split_ifs
  · exact congrArg some (fail_after ..)
  · generalize s.renewed = core
    unfold confirm
    change (match negotiate capsSets core.config with | none => _ | some n => _) = _
    cases negotiate capsSets core.config with
    | none => exact congrArg some (fail_after ..)
    | some n => exact send_emit_after _ _ _ { core with negotiated := some n, state := .ready } _ _

/-- What a server does with a PDU does not depend on what it sent and told before. -/
theorem handlePdu_after (s : GfxServer) (bytes : List UInt8) : (s.after output events input).handlePdu bytes =
    (s.handlePdu bytes).map fun s => s.after output events input := by
  unfold handlePdu
  cases decodePdu bytes with
  | error e => exact congrArg some (fail_after ..)
  | ok pdu =>
    cases pdu with
    | capsAdvertise capsSets => exact onCapsAdvertise_after output events input s capsSets
    | frameAcknowledge queueDepth frameId total =>
      change (if s.state ≠ .ready then _ else _) = Option.map _ (if s.state ≠ .ready then _ else _)
      split_ifs
      · exact congrArg some (fail_after ..)
      · simp [onFrameAcknowledge, after]
    | qoeFrameAcknowledge frameId timestamp se edr =>
      change (if s.state ≠ .ready then _ else _) = Option.map _ (if s.state ≠ .ready then _ else _)
      split_ifs
      · exact congrArg some (fail_after ..)
      · simp [after]
    | cacheImportOffer entries =>
      change (if s.state ≠ .ready then _ else _) = Option.map _ (if s.state ≠ .ready then _ else _)
      split_ifs
      · exact congrArg some (fail_after ..)
      · exact send_emit_after output events input s (.cacheImportReply []) (.cacheImportOffered entries.length 0)
    | _ =>
      change (if s.state ≠ .ready then _ else _) = Option.map _ (if s.state ≠ .ready then _ else _)
      split_ifs <;> exact congrArg some (fail_after ..)

end

/-! ### Every PDU is handled -/

theorem writeCapabilitySet_make (version flags : ℕ) :
    ∃ body, writeCapabilitySet (makeCapabilitySet version flags) = some body ∧ body.length ≤ 24 := by
  unfold makeCapabilitySet
  split_ifs with hten hunknown
  · subst hten
    exact ⟨_, rfl, by decide⟩
  · cases hlength : capsDataLength version with
    | some length => simp [hlength] at hunknown
    | none =>
      refine ⟨u32le version ++ u32le 4 ++ u32le flags, ?_, by simp⟩
      simp [writeCapabilitySet, hlength, checkedLength]
  · cases hlength : capsDataLength version with
    | none => simp [hlength] at hunknown
    | some length =>
      refine ⟨u32le version ++ u32le length ++ u32le flags, ?_, by simp⟩
      simp [writeCapabilitySet, hlength, hten]

theorem send_capsConfirm (s : GfxServer) (version flags : ℕ) :
    ∃ bytes, s.send (.capsConfirm (makeCapabilitySet version flags)) = some
      { s with output := s.output ++ [bytes] } := by
  obtain ⟨body, hbody, hlen⟩ := writeCapabilitySet_make version flags
  have hsmall : checkedLength (headerSize + body.length) = some (headerSize + body.length) :=
    if_pos (by simp only [headerSize]; omega)
  refine ⟨u16le Cmd.capsConfirm ++ u16le 0 ++ u32le (headerSize + body.length) ++ body, ?_⟩
  simp [send, encode, encodeBody, hbody, hsmall, cmdId]

theorem onCapsAdvertise_total (s : GfxServer) (capsSets : List CapabilitySet) :
    ∃ s', s.onCapsAdvertise capsSets = some s' := by
  rw [onCapsAdvertise_eq]
  split_ifs
  · exact ⟨_, rfl⟩
  · unfold confirm
    cases negotiate capsSets s.renewed.config with
    | none => exact ⟨_, rfl⟩
    | some n =>
      obtain ⟨bytes, hsent⟩ := send_capsConfirm { s.renewed with negotiated := some n, state := .ready } n.version
        n.flags
      simp only [hsent]
      exact ⟨_, rfl⟩

theorem handlePdu_total (s : GfxServer) (bytes : List UInt8) : ∃ s', s.handlePdu bytes = some s' := by
  unfold handlePdu
  cases decodePdu bytes with
  | error e => exact ⟨_, rfl⟩
  | ok pdu =>
    cases pdu with
    | capsAdvertise capsSets => exact onCapsAdvertise_total s capsSets
    | cacheImportOffer entries =>
      split_ifs
      · exact ⟨_, rfl⟩
      · exact ⟨_, rfl⟩
    | _ =>
      split_ifs <;> exact ⟨_, rfl⟩

/-- The server after a PDU. -/
def handled (s : GfxServer) (bytes : List UInt8) : GfxServer := (s.handlePdu bytes).getD s

theorem handlePdu_eq (s : GfxServer) (bytes : List UInt8) : s.handlePdu bytes = some (s.handled bytes) := by
  obtain ⟨s', h⟩ := handlePdu_total s bytes
  rw [handled, h]
  rfl

theorem handled_after (s : GfxServer) (bytes : List UInt8) (output : List (List UInt8)) (events : List GfxEvent)
    (input : List UInt8) :
    (s.after output events input).handled bytes = (s.handled bytes).after output events input := by
  have h := handlePdu_after output events input s bytes
  rw [handlePdu_eq, handlePdu_eq] at h
  exact Option.some.inj h

theorem handled_input (h : s.input = []) (bytes : List UInt8) : (s.handled bytes).input = [] := by
  have hsame : s.after [] [] [] = s := by
    unfold after
    rw [← h]
    rfl
  have hafter := handled_after s bytes [] [] []
  rw [hsame] at hafter
  rw [hafter]
  rfl

/-! ### The stream -/

/-- The session that the channel's stream carries. -/
def framing : Framing UInt8 GfxServer Error where
  frame input := framePdu input maxClientPduSize
  handle bytes s := s.handled bytes
  spoil e s := s.fail ("malformed RDPGFX header: " ++ e.message)
  isOpen s := s.state ≠ .failed
  leave s _ := s
  late s _ := s

theorem framing_lawful : framing.Lawful where
  pos h := by
    have hsome := framePdu_some h
    simp only [headerSize] at hsome
    omega
  append {stream n} more h := by
    obtain ⟨hlen, hn, hmin, hmax, hwhole⟩ := framePdu_some h
    change framePdu (stream ++ more) maxClientPduSize = _
    rw [framePdu_eq (by rw [length_append]; omega), framePdu_append hlen, ← hn, if_neg (by omega), if_neg (by omega),
      if_neg (by rw [length_append]; omega)]
  error_append {stream e} more h := by
    have hlen : headerSize ≤ stream.length := by
      by_contra hshort
      change framePdu stream maxClientPduSize = _ at h
      rw [framePdu, if_pos (by omega)] at h
      cases h
    change framePdu stream maxClientPduSize = _ at h
    change framePdu (stream ++ more) maxClientPduSize = _
    rw [framePdu_eq hlen] at h
    rw [framePdu_eq (by rw [length_append]; omega), framePdu_append hlen]
    split_ifs at h with hsmall hlarge hwhole
    · rw [if_pos hsmall]
      exact h
    · rw [if_neg hsmall, if_pos hlarge]
      exact h
  spoil_closed e s := by simp [framing, fail]
  leave_closed rest h := h
  late_closed more h := h
  late_spoil e s more := rfl
  late_leave rest more h := rfl
  late_late rest more h := rfl

/-- The server without its unread input, and that. -/
def buffered (s : GfxServer) : Framing.Buffered UInt8 GfxServer := ⟨{ s with input := [] }, s.input⟩

def assembled (b : Framing.Buffered UInt8 GfxServer) : GfxServer := { b.session with input := b.input }

theorem buffered_assembled {b : Framing.Buffered UInt8 GfxServer} (h : b.session.input = []) :
    (assembled b).buffered = b := by
  obtain ⟨session, input⟩ := b
  cases session
  cases h
  rfl

/-- The loop of `receive` is that of the framing. -/
theorem receiveLoop_eq : ∀ (fuel : ℕ) (s : GfxServer) (input rest : List UInt8), s.input = [] → rest.length < fuel →
    ∃ rest', receiveLoop fuel { s with input := input } rest =
        some ({ (framing.pump fuel s rest).session with input := input }, rest') ∧
      (framing.pump fuel s rest).session.input = [] ∧
      (framing.pump fuel s rest).input = if (framing.pump fuel s rest).session.state = .failed then [] else rest'
  | 0, _, _, _, _, h => absurd h (by omega)
  | fuel + 1, s, input, rest, hs, h => by
    rw [receiveLoop, Framing.pump]
    by_cases hfailed : s.state = .failed
    · have hclosed : framing.isOpen s = false := by simp [framing, hfailed]
      rw [if_pos hfailed, if_pos hclosed]
      exact ⟨rest, rfl, hs, (if_pos hfailed).symm⟩
    · have hopen : ¬ framing.isOpen s = false := by simp [framing, hfailed]
      rw [if_neg hfailed, if_neg hopen]
      have hframe : framing.frame rest = framePdu rest maxClientPduSize := rfl
      rw [hframe]
      rcases hf : framePdu rest maxClientPduSize with e | _ | size
      · exact ⟨rest, rfl, hs, (if_pos rfl).symm⟩
      · exact ⟨rest, rfl, hs, (if_neg hfailed).symm⟩
      · obtain ⟨-, -, hmin, -, hwhole⟩ := framePdu_some hf
        have hnot : ¬ rest.length < size := by omega
        simp only [if_neg hnot]
        have hinput : { s with input := input } = s.after [] [] input := rfl
        have hhandled : handlePdu { s with input := input } (rest.take size) =
            some { s.handled (rest.take size) with input := input } := by
          rw [hinput, handlePdu_eq, handled_after]
          rfl
        rw [hhandled]
        have hlen : (rest.drop size).length < fuel := by
          simp only [headerSize] at hmin
          rw [length_drop]
          omega
        exact receiveLoop_eq fuel (s.handled (rest.take size)) input (rest.drop size) (handled_input hs _) hlen

theorem receive_eq (s : GfxServer) (bytes : List UInt8) :
    s.receive bytes = some (assembled (framing.receive s.buffered bytes)) ∧
      (framing.receive s.buffered bytes).session.input = [] := by
  rw [receive, Framing.receive]
  by_cases hfailed : s.state = .failed
  · have hclosed : ¬ framing.isOpen s.buffered.session = true := by simp [framing, buffered, hfailed]
    rw [if_pos hfailed, if_neg hclosed]
    exact ⟨rfl, rfl⟩
  · have hopen : framing.isOpen s.buffered.session = true := by simp [framing, buffered, hfailed]
    rw [if_neg hfailed, if_pos hopen]
    obtain ⟨rest, hloop, hinput, hrest⟩ := receiveLoop_eq ((s.input ++ bytes).length + 1) { s with input := [] }
      (s.input ++ bytes) (s.input ++ bytes) rfl (lt_succ_self _)
    change receiveLoop ((s.input ++ bytes).length + 1) { s with input := s.input ++ bytes }
      (s.input ++ bytes) = _ at hloop
    refine ⟨?_, hinput⟩
    simp only [hloop]
    change some _ = some { (framing.pump ((s.input ++ bytes).length + 1) { s with input := [] }
      (s.input ++ bytes)).session
      with input := (framing.pump ((s.input ++ bytes).length + 1) { s with input := [] } (s.input ++ bytes)).input }
    rw [hrest]

/-- **Two pieces are one piece.** -/
theorem receive_append (s : GfxServer) (xs ys : List UInt8) :
    (s.receive xs).bind (fun s => s.receive ys) = s.receive (xs ++ ys) := by
  obtain ⟨hxs, hinput⟩ := receive_eq s xs
  rw [hxs, bind_some, (receive_eq _ ys).1, buffered_assembled hinput, Framing.receive_append framing_lawful]
  exact (receive_eq s (xs ++ ys)).1.symm

theorem receive_after (s : GfxServer) (bytes : List UInt8) (output : List (List UInt8)) (events : List GfxEvent) :
    (s.after output events s.input).receive bytes = (s.receive bytes).map fun s => s.after output events s.input := by
  have hpump : ∀ (fuel : ℕ) (s : GfxServer) (rest : List UInt8), s.input = [] →
      framing.pump fuel (s.after output events []) rest =
        ⟨(framing.pump fuel s rest).session.after output events [], (framing.pump fuel s rest).input⟩ := by
    intro fuel
    induction fuel with
    | zero => exact fun _ _ _ => rfl
    | succ fuel ih =>
      intro s rest hs
      rw [Framing.pump, Framing.pump]
      change (if framing.isOpen s = false then _ else _) = _
      split_ifs
      · rfl
      · rcases framing.frame rest with e | _ | size
        · refine congrArg (fun session => Framing.Buffered.mk session []) ?_
          exact fail_after output events [] s _
        · rfl
        · by_cases hshort : rest.length < size
          · simp only [if_pos hshort]
          · simp only [if_neg hshort]
            have hhandle : framing.handle (rest.take size) (s.after output events []) =
                (framing.handle (rest.take size) s).after output events [] := handled_after s _ output events []
            rw [hhandle]
            exact ih _ _ (handled_input hs _)
  rw [(receive_eq _ bytes).1, (receive_eq s bytes).1]
  congr 1
  have hbuffered : (s.after output events s.input).buffered = ⟨s.buffered.session.after output events [], s.input⟩ :=
    rfl
  rw [hbuffered, Framing.receive, Framing.receive]
  change assembled (if framing.isOpen s.buffered.session = true then _ else _) = _
  split_ifs
  · change assembled (framing.pump _ _ _) = (assembled (framing.pump _ _ _)).after output events _
    rw [hpump _ _ _ rfl]
    rfl
  · rfl

/-! ### A stream cut up -/

/-- The calls that bring the client's bytes and take what they led to. -/
inductive Feed where
  | receive (bytes : List UInt8)
  | takeOutput
  | pollEvent
  deriving DecidableEq

def Feed.command : Feed → Command
  | .receive bytes => .receive bytes
  | .takeOutput => .takeOutput
  | .pollEvent => .pollEvent

def Feed.bytes : Feed → List UInt8
  | .receive bytes => bytes
  | .takeOutput | .pollEvent => []

/-- A server and what was taken from it. -/
structure Fed where
  server : GfxServer
  taken : List (List UInt8) := []
  polled : List GfxEvent := []

def Fed.next (t : Fed) (feed : Feed) : Option Fed := do
  let s ← step t.server feed.command
  pure {
    server := s
    taken := t.taken ++ if feed = .takeOutput then t.server.output else []
    polled := t.polled ++ if feed = .pollEvent then t.server.events.take 1 else [] }

def Fed.run : Fed → List Feed → Option Fed
  | t, [] => some t
  | t, feed :: feeds => (t.next feed).bind fun t => t.run feeds

/-- One call in place of the calls so far. -/
def Fed.Whole (s : GfxServer) (bytes : List UInt8) (t : Fed) : Prop :=
  s.receive bytes = some (t.server.after t.taken t.polled t.server.input)

variable {bytes : List UInt8}

theorem Fed.next_whole {t : Fed} (h : t.Whole s bytes) (feed : Feed) :
    ∃ t', t.next feed = some t' ∧ t'.Whole s (bytes ++ feed.bytes) := by
  cases feed with
  | receive more =>
    obtain ⟨s', hs'⟩ : ∃ s', t.server.receive more = some s' := ⟨_, (receive_eq _ _).1⟩
    refine ⟨⟨s', t.taken ++ [], t.polled ++ []⟩, ?_, ?_⟩
    · simp [next, Feed.command, step, hs']
    · rw [Whole, Feed.bytes, ← receive_append, h, bind_some, receive_after, hs', append_nil,
      append_nil]
      rfl
  | takeOutput =>
    refine ⟨⟨{ t.server with output := [] }, t.taken ++ t.server.output, t.polled ++ []⟩, rfl, ?_⟩
    rw [Whole, Feed.bytes, append_nil, h]
    simp [after]
  | pollEvent =>
    refine ⟨⟨{ t.server with events := t.server.events.tail }, t.taken ++ [], t.polled ++ t.server.events.take 1⟩,
      rfl, ?_⟩
    have hevents : t.server.events.take 1 ++ t.server.events.tail = t.server.events := by
      rw [← drop_one, take_append_drop]
    rw [Whole, Feed.bytes, append_nil, h]
    simp only [after, append_nil, append_assoc, hevents]

theorem Fed.run_whole : ∀ (feeds : List Feed) {bytes : List UInt8} {t : Fed}, t.Whole s bytes →
    ∃ t', t.run feeds = some t' ∧ t'.Whole s (bytes ++ feeds.flatMap Feed.bytes)
  | [], bytes, t, h => ⟨t, rfl, by simpa using h⟩
  | feed :: feeds, bytes, t, h => by
    obtain ⟨t₁, hnext, hwhole⟩ := next_whole h feed
    obtain ⟨t', hrun, hlast⟩ := run_whole feeds hwhole
    refine ⟨t', ?_, ?_⟩
    · rw [run, hnext]
      exact hrun
    · rw [flatMap_cons, ← append_assoc]
      exact hlast

/-- Nothing whole is left unread. -/
def Settled (s : GfxServer) : Prop := s.state = .failed ∨ framePdu s.input maxClientPduSize = .ok none

theorem receiveLoop_settled : ∀ (fuel : ℕ) (s : GfxServer) (rest : List UInt8) {s' : GfxServer} {rest' : List UInt8},
    rest.length < fuel → receiveLoop fuel s rest = some (s', rest') →
      s'.state = .failed ∨ framePdu rest' maxClientPduSize = .ok none
  | 0, _, _, _, _, hfuel, _ => absurd hfuel (by omega)
  | fuel + 1, s, rest, s', rest', hfuel, h => by
    rw [receiveLoop] at h
    by_cases hfailed : s.state = .failed
    · rw [if_pos hfailed] at h
      cases h
      exact .inl hfailed
    · rw [if_neg hfailed] at h
      rcases hf : framePdu rest maxClientPduSize with e | _ | size
      · rw [hf] at h
        cases h
        exact .inl rfl
      · rw [hf] at h
        cases h
        exact .inr hf
      · obtain ⟨-, -, hmin, -, hwhole⟩ := framePdu_some hf
        rw [hf] at h
        dsimp only at h
        rw [handlePdu_eq] at h
        simp only [headerSize] at hmin
        exact receiveLoop_settled fuel _ _ (by rw [length_drop]; omega) h

theorem receive_settled (hs : s.Settled) (h : s.receive bytes = some s') : s'.Settled := by
  unfold receive at h
  by_cases hfailed : s.state = .failed
  · rw [if_pos hfailed] at h
    cases h
    exact hs
  · rw [if_neg hfailed] at h
    dsimp only at h
    split at h
    · cases h
    · rename_i s₁ rest hloop
      cases h
      obtain hlast | hnone := receiveLoop_settled _ _ _ (lt_succ_self _) hloop
      · exact .inl hlast
      · by_cases hlast : s₁.state = .failed
        · exact .inl hlast
        · refine .inr ?_
          change framePdu (if s₁.state = .failed then [] else rest) maxClientPduSize = _
          rw [if_neg hlast]
          exact hnone

theorem Settled.receive_nil (h : s.Settled) : s.receive [] = some s := by
  unfold receive
  by_cases hfailed : s.state = .failed
  · rw [if_pos hfailed]
  · have hnone := h.resolve_left hfailed
    simp only [append_nil, receiveLoop, if_neg hfailed, hnone]

/-! ### After a failure -/

/-- Only what was sent and told already is taken away. -/
structure Silent (s s' : GfxServer) : Prop where
  same : s' = { s with output := s'.output, events := s'.events }
  output : s'.output <:+ s.output
  events : s'.events <:+ s.events

theorem Silent.refl (s : GfxServer) : Silent s s := ⟨rfl, suffix_rfl, suffix_rfl⟩

/-- **A failed server does nothing more.** -/
theorem step_failed (h : s.state = .failed) (c : Command) : ∃ s', step s c = some s' ∧ Silent s s' := by
  have hidle : ∀ {α : Type} (otherwise : α) (body : Option (GfxServer × α)),
      (s.whenUsable otherwise body).map Prod.fst = some s := by
    intro α otherwise body
    simp [whenUsable, usable, h]
  cases c with
  | receive bytes => exact ⟨s, if_pos h, .refl s⟩
  | takeOutput => exact ⟨_, rfl, rfl, nil_suffix, suffix_rfl⟩
  | pollEvent => exact ⟨_, rfl, rfl, suffix_rfl, tail_suffix _⟩
  | _ => exact ⟨s, hidle _ _, .refl s⟩

/-! ### The frames that wait -/

/-- The mark that a PDU leaves. -/
def mark (s : GfxServer) (bytes : List UInt8) : Option (InFlight.Mark ℕ) :=
  match decodePdu bytes with
  | .ok (.capsAdvertise _) => if s.state = .ready ∧ s.refusesAdvertise = false then some .reset else none
  | .ok (.frameAcknowledge queueDepth frameId _) =>
    if s.state = .ready then
      some (if queueDepth = suspendFrameAcknowledgement then .suspended else .acked frameId)
    else none
  | _ => none

/-- The marks of the PDUs of one `receive`, in front of those before. -/
def marksLoop : ℕ → GfxServer → List UInt8 → List (InFlight.Mark ℕ) → List (InFlight.Mark ℕ)
  | 0, _, _, h => h
  | fuel + 1, s, rest, h =>
    if s.state = .failed then h
    else
      match framePdu rest maxClientPduSize with
      | .ok (some size) =>
        match s.handlePdu (rest.take size) with
        | none => h
        | some s' => marksLoop fuel s' (rest.drop size) ((s.mark (rest.take size)).toList ++ h)
      | _ => h

/-- The marks of a call: PDUs received, or a frame ended. -/
def marks (s : GfxServer) (h : List (InFlight.Mark ℕ)) : Command → List (InFlight.Mark ℕ)
  | .receive bytes => marksLoop ((s.input ++ bytes).length + 1) { s with input := s.input ++ bytes }
    (s.input ++ bytes) h
  | .endFrame => if s.state = .ready then .ended s.currentFrame :: h else h
  | _ => h

/-- The marks of a run, newest first. -/
def history : GfxServer → List Command → List (InFlight.Mark ℕ) → List (InFlight.Mark ℕ)
  | _, [], h => h
  | s, c :: cs, h =>
    match step s c with
    | none => h
    | some s' => history s' cs (s.marks h c)

/-- The frames that wait are those of the history. -/
structure Acks (s : GfxServer) (h : List (InFlight.Mark ℕ)) : Prop where
  unacked : s.unacked = InFlight.unacked h
  suspended : s.acksSuspended = InFlight.suspended h

/-- What the acknowledgements and the stream need is left alone. -/
structure Kept (s s' : GfxServer) : Prop where
  state : s'.state = s.state
  input : s'.input = s.input
  unacked : s'.unacked = s.unacked
  suspended : s'.acksSuspended = s.acksSuspended

theorem Kept.refl (s : GfxServer) : Kept s s := ⟨rfl, rfl, rfl, rfl⟩

theorem Kept.trans {s'' : GfxServer} (h : Kept s s') (h' : Kept s' s'') : Kept s s'' :=
  ⟨h'.state.trans h.state, h'.input.trans h.input, h'.unacked.trans h.unacked, h'.suspended.trans h.suspended⟩

theorem Kept.acks (h : Kept s s') {marks : List (InFlight.Mark ℕ)} (ha : Acks s marks) : Acks s' marks :=
  ⟨h.unacked.trans ha.unacked, h.suspended.trans ha.suspended⟩

theorem send_kept {pdu : Pdu} (h : s.send pdu = some s') : Kept s s' ∧ s'.currentFrame = s.currentFrame := by
  unfold send at h
  obtain ⟨bytes, -, h⟩ := bind_eq_some_iff.mp h
  cases h
  exact ⟨⟨rfl, rfl, rfl, rfl⟩, rfl⟩

variable {h : List (InFlight.Mark ℕ)}

theorem onFrameAcknowledge_acks (ha : Acks s h) (queueDepth frameId total : ℕ) :
    Acks (s.onFrameAcknowledge queueDepth frameId total)
      ((if queueDepth = suspendFrameAcknowledgement then .suspended else .acked frameId) :: h) := by
  by_cases hsuspend : queueDepth = suspendFrameAcknowledgement
  · rw [if_pos hsuspend]
    refine ⟨?_, ?_⟩
    · rw [InFlight.unacked_cleared (.inl rfl)]
      simp [onFrameAcknowledge, hsuspend]
    · simp [onFrameAcknowledge, hsuspend, InFlight.suspended]
  · rw [if_neg hsuspend]
    refine ⟨?_, ?_⟩
    · rw [InFlight.unacked_acked, ← ha.unacked]
      simp [onFrameAcknowledge, hsuspend]
    · simp [onFrameAcknowledge, hsuspend, InFlight.suspended]

theorem confirm_kept {capsSets : List CapabilitySet} {reset : Bool} (h : s.confirm capsSets reset = some s') :
    s'.unacked = s.unacked ∧ s'.acksSuspended = s.acksSuspended := by
  unfold confirm at h
  cases hneg : negotiate capsSets s.config with
  | none =>
    rw [hneg] at h
    cases h
    exact ⟨rfl, rfl⟩
  | some n =>
    rw [hneg] at h
    obtain ⟨s₁, hsent, h⟩ := bind_eq_some_iff.mp h
    cases h
    have hkept := (send_kept hsent).1
    exact ⟨hkept.unacked, hkept.suspended⟩

/-- A PDU leaves its mark on the frames that wait. -/
theorem handlePdu_acks (ha : Acks s h) (hs : s.handlePdu bytes = some s') : Acks s' ((s.mark bytes).toList ++ h) := by
  have hfail : ∀ reason, Acks (s.fail reason) h := fun _ => ⟨ha.unacked, ha.suspended⟩
  unfold handlePdu at hs
  unfold mark
  cases hpdu : decodePdu bytes with
  | error e =>
    rw [hpdu] at hs
    cases hs
    exact hfail _
  | ok pdu =>
    rw [hpdu] at hs
    cases pdu with
    | capsAdvertise capsSets =>
      dsimp only at hs ⊢
      rw [onCapsAdvertise_eq] at hs
      by_cases hrefused : s.refusesAdvertise = true
      · rw [if_pos hrefused] at hs
        cases hs
        rw [if_neg (by simp [hrefused])]
        exact hfail _
      · rw [if_neg hrefused] at hs
        obtain ⟨hunacked, hsuspended⟩ := confirm_kept hs
        by_cases hready : s.state = .ready
        · have hrenewed : s.renewed = s.resetProtocol := if_pos (by simp [hready])
          rw [hrenewed] at hunacked hsuspended
          rw [if_pos ⟨hready, by simpa using hrefused⟩]
          refine ⟨hunacked.trans ?_, hsuspended.trans rfl⟩
          exact (InFlight.unacked_cleared (.inr rfl) h).symm
        · have hrenewed : s.renewed = s := if_neg (by simp [hready])
          rw [hrenewed] at hunacked hsuspended
          rw [if_neg fun hboth => hready hboth.1]
          exact ⟨hunacked.trans ha.unacked, hsuspended.trans ha.suspended⟩
    | frameAcknowledge queueDepth frameId total =>
      dsimp only at hs ⊢
      by_cases hready : s.state = .ready
      · rw [if_neg (by simp [hready])] at hs
        rw [if_pos hready]
        cases hs
        exact onFrameAcknowledge_acks ha queueDepth frameId total
      · rw [if_pos hready] at hs
        rw [if_neg hready]
        cases hs
        exact hfail _
    | cacheImportOffer entries =>
      split_ifs at hs
      · cases hs
        exact hfail _
      · unfold onCacheImportOffer at hs
        obtain ⟨s₁, hsent, hs⟩ := bind_eq_some_iff.mp hs
        cases hs
        have hkept := (send_kept hsent).1
        exact ⟨hkept.unacked.trans ha.unacked, hkept.suspended.trans ha.suspended⟩
    | qoeFrameAcknowledge frameId timestamp se edr =>
      split_ifs at hs
      · cases hs
        exact hfail _
      · cases hs
        exact ⟨ha.unacked, ha.suspended⟩
    | _ =>
      split_ifs at hs
      all_goals
        cases hs
        exact hfail _

theorem receiveLoop_acks : ∀ (fuel : ℕ) (s : GfxServer) (rest : List UInt8) (h : List (InFlight.Mark ℕ))
    {s' : GfxServer} {rest' : List UInt8}, Acks s h → receiveLoop fuel s rest = some (s', rest') →
      Acks s' (marksLoop fuel s rest h)
  | 0, _, _, _, _, _, ha, hs => by
    cases hs
    exact ha
  | fuel + 1, s, rest, h, s', rest', ha, hs => by
    rw [receiveLoop] at hs
    rw [marksLoop]
    by_cases hfailed : s.state = .failed
    · rw [if_pos hfailed] at hs ⊢
      cases hs
      exact ha
    · rw [if_neg hfailed] at hs ⊢
      rcases hf : framePdu rest maxClientPduSize with e | _ | size
      · rw [hf] at hs
        cases hs
        exact ⟨ha.unacked, ha.suspended⟩
      · rw [hf] at hs
        cases hs
        exact ha
      · rw [hf] at hs
        dsimp only at hs ⊢
        cases hpdu : s.handlePdu (rest.take size) with
        | none =>
          rw [hpdu] at hs
          cases hs
        | some s₁ =>
          rw [hpdu] at hs
          exact receiveLoop_acks fuel s₁ (rest.drop size) _ (handlePdu_acks ha hpdu) hs

theorem kept_of_usable {α : Type} {otherwise : α} {body : Option (GfxServer × α)}
    (h : (s.whenUsable otherwise body).map Prod.fst = some s') (hbody : ∀ r, body = some r → Kept s r.1) :
      Kept s s' := by
  obtain ⟨r, hr, rfl⟩ := map_eq_some_iff.mp h
  obtain ⟨-, rfl⟩ | ⟨-, hr⟩ := whenUsable_cases hr
  · exact .refl s
  · exact hbody r hr

/-- The other calls leave the stream and the waiting frames alone. -/
theorem step_kept {c : Command} (hreceive : ∀ bytes, c ≠ .receive bytes) (hend : c ≠ .endFrame)
    (h : step s c = some s') : Kept s s' := by
  cases c with
  | receive bytes => exact absurd rfl (hreceive bytes)
  | endFrame => exact absurd rfl hend
  | takeOutput | pollEvent =>
    cases h
    exact ⟨rfl, rfl, rfl, rfl⟩
  | resetGraphics =>
    refine kept_of_usable h fun r h => ?_
    simp only [bind, bind_eq_some_iff, pure, Option.some.injEq] at h
    obtain ⟨_, _, _, _, _, _, s₁, hsent, rfl⟩ := h
    exact (send_kept hsent).1.trans ⟨rfl, rfl, rfl, rfl⟩
  | createSurface | deleteSurface | mapSurfaceToOutput | mapSurfaceToScaledOutput | mapSurfaceToWindow
  | mapSurfaceToScaledWindow | startFrame | wireToSurface1 | wireToSurface2 | deleteEncodingContext | solidFill
  | surfaceToSurface | cacheToSurface | evictCacheEntry =>
    refine kept_of_usable h fun r h => ?_
    -- the last step before the result is the message
    repeat
      replace h := bind_eq_some_iff.mp h
      obtain ⟨_, hsent, h⟩ := h
    cases h
    refine Kept.trans ?_ (send_kept hsent).1
    exact ⟨rfl, rfl, rfl, rfl⟩
  | surfaceToCache surfaceId rect key =>
    refine kept_of_usable h fun r h => ?_
    obtain ⟨src, -, h⟩ := bind_eq_some_iff.mp h
    obtain ⟨-, -, h⟩ := bind_eq_some_iff.mp h
    obtain ⟨-, -, h⟩ := bind_eq_some_iff.mp h
    obtain ⟨-, -, h⟩ := bind_eq_some_iff.mp h
    obtain ⟨n, -, h⟩ := bind_eq_some_iff.mp h
    split_ifs at h
    · cases h
      exact .refl s
    · obtain ⟨index, -, h⟩ := bind_eq_some_iff.mp h
      obtain ⟨s₁, hsent, h⟩ := bind_eq_some_iff.mp h
      cases h
      refine Kept.trans ?_ (send_kept hsent).1
      exact ⟨rfl, rfl, rfl, rfl⟩

/-- A frame that ends waits, unless acknowledgements are suspended. -/
theorem endFrame_acks (ha : Acks s h) (hs : step s .endFrame = some s') :
    Acks s' (s.marks h .endFrame) ∧ s'.state = s.state ∧ s'.input = s.input := by
  obtain ⟨r, hr, rfl⟩ := map_eq_some_iff.mp hs
  obtain ⟨hfailed, rfl⟩ | ⟨hready, hr⟩ := whenUsable_cases hr
  · have hnot : ¬ s.state = .ready := by simp [hfailed]
    rw [marks, if_neg hnot]
    exact ⟨ha, rfl, rfl⟩
  · obtain ⟨-, -, hr⟩ := bind_eq_some_iff.mp hr
    obtain ⟨s₁, hsent, hr⟩ := bind_eq_some_iff.mp hr
    cases hr
    obtain ⟨hkept, hframe⟩ := send_kept hsent
    have hunacked : s₁.unacked = InFlight.unacked h := hkept.unacked.trans ha.unacked
    have hsuspended : s₁.acksSuspended = InFlight.suspended h := hkept.suspended.trans ha.suspended
    rw [marks, if_pos hready]
    by_cases hsuspend : s₁.acksSuspended = true
    · rw [if_pos hsuspend]
      refine ⟨⟨?_, hsuspended⟩, hkept.state, hkept.input⟩
      rw [InFlight.unacked_ended, if_pos (hsuspended ▸ hsuspend)]
      exact hunacked
    · rw [if_neg hsuspend]
      refine ⟨⟨?_, hsuspended⟩, hkept.state, hkept.input⟩
      rw [InFlight.unacked_ended, if_neg (hsuspended ▸ hsuspend), ← hunacked, ← hframe]

/-- **A call marks the frames that wait**, and leaves nothing whole unread. -/
theorem step_acks {c : Command} (ha : Acks s h) (hsettled : s.Settled) (hs : step s c = some s') :
    Acks s' (s.marks h c) ∧ s'.Settled := by
  by_cases hend : c = .endFrame
  · subst hend
    obtain ⟨hacks, hstate, hinput⟩ := endFrame_acks ha hs
    refine ⟨hacks, ?_⟩
    unfold Settled
    rw [hstate, hinput]
    exact hsettled
  · cases c with
    | receive bytes =>
      refine ⟨?_, receive_settled hsettled hs⟩
      change s.receive bytes = some s' at hs
      unfold receive at hs
      rw [marks]
      by_cases hfailed : s.state = .failed
      · rw [if_pos hfailed] at hs
        cases hs
        rw [marksLoop, if_pos hfailed]
        exact ha
      · rw [if_neg hfailed] at hs
        dsimp only at hs
        split at hs
        · cases hs
        · rename_i s₁ rest hloop
          cases hs
          have hacks := receiveLoop_acks _ { s with input := s.input ++ bytes } _ h ⟨ha.unacked, ha.suspended⟩ hloop
          exact ⟨hacks.unacked, hacks.suspended⟩
    | endFrame => exact absurd rfl hend
    | _ =>
      have hkept := step_kept (by simp) hend hs
      refine ⟨hkept.acks ha, ?_⟩
      unfold Settled
      rw [hkept.state, hkept.input]
      exact hsettled

theorem run_acks : ∀ (cs : List Command) {s s' : GfxServer} {h : List (InFlight.Mark ℕ)}, Acks s h → s.Settled →
    Rdpgfx.run s cs = some s' → Acks s' (s.history cs h) ∧ s'.Settled
  | [], _, _, _, ha, hsettled, hrun => by
    cases hrun
    exact ⟨ha, hsettled⟩
  | c :: cs, s, s', h, ha, hsettled, hrun => by
    obtain ⟨s₁, hstep, hrun⟩ := bind_eq_some_iff.mp hrun
    obtain ⟨hacks, hlast⟩ := step_acks ha hsettled hstep
    have hhistory : s.history (c :: cs) h = s₁.history cs (s.marks h c) := by
      rw [history, hstep]
    rw [hhistory]
    exact run_acks cs hacks hlast hrun

/-- **The client's stream.** After any calls: however what comes next is cut
into pieces, and whenever output and events are taken, the server ends up the
same and has sent and told the same as for one piece; once failed it does
nothing more; and the frames that wait are those ended since the last reset,
suspension or acknowledged frame. -/
theorem run_stream (config : GfxServerConfig) (commands : List Command) (s : GfxServer)
    (hrun : Rdpgfx.run { config } commands = some s) :
    (∀ feeds : List Feed, ∃ t whole, Fed.run { server := s } feeds = some t ∧
      s.receive (feeds.flatMap Feed.bytes) = some whole ∧ whole.output = t.taken ++ t.server.output ∧
      whole.events = t.polled ++ t.server.events ∧
      { whole with output := t.server.output, events := t.server.events } = t.server) ∧
    (s.state = .failed → ∀ c, ∃ s', step s c = some s' ∧ Silent s s') ∧
    s.unacked = InFlight.unacked (history { config } commands []) ∧
    s.acksSuspended = InFlight.suspended (history { config } commands []) := by
  have hfresh : Acks ({ config } : GfxServer) [] := ⟨rfl, rfl⟩
  obtain ⟨hacks, hsettled⟩ := run_acks commands hfresh (.inr rfl) hrun
  refine ⟨fun feeds => ?_, step_failed, hacks.unacked, hacks.suspended⟩
  have hstart : Fed.Whole s [] { server := s } := hsettled.receive_nil
  obtain ⟨t, hfed, hwhole⟩ := Fed.run_whole feeds hstart
  exact ⟨t, _, hfed, hwhole, rfl, rfl, rfl⟩

/-- Three frames, of which the client acknowledges the second; its message comes in two pieces. -/
def threeFrames : List Command :=
  [.receive [0x12, 0, 0, 0, 22, 0, 0, 0, 1, 0, 0x01, 0x07, 0x0A, 0, 4, 0, 0, 0, 2, 0, 0, 0], .startFrame 0, .endFrame,
    .startFrame 0, .endFrame, .receive [0x0D, 0, 0, 0, 20, 0], .startFrame 0, .endFrame,
    .receive [0, 0, 1, 0, 0, 0, 2, 0, 0, 0, 2, 0, 0, 0]]

set_option maxRecDepth 4000 in
theorem run_threeFrames : ∃ s, Rdpgfx.run { config := {} } threeFrames = some s ∧ s.unacked = [3] ∧
    InFlight.unacked (history { config := {} } threeFrames []) = [3] := by
  obtain ⟨s, hrun, hunacked⟩ : ∃ s, Rdpgfx.run { config := {} } threeFrames = some s ∧ s.unacked = [3] := ⟨_, rfl, rfl⟩
  exact ⟨s, hrun, hunacked, (run_stream {} threeFrames s hrun).2.2.1.symm.trans hunacked⟩

end GfxServer
end Rdpgfx
end Channels
end Farland
