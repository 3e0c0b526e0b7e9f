/-
# The cuts of the stream before authentication

The outcome of pre-authentication does not depend on how the client's bytes
are cut into pieces, as far as the acceptor's does not (`Steady`) and no piece
is empty. An empty one between the Connection Confirm and TLS counts as data
that came too early. A run that fails may fail earlier or later, with another
reason, when the bytes are cut differently; every other run ends up the same,
and has sent and reported the same.

Key theorems: **`run_gate`**, `cut_matters`.
-/
import Farland.Server.PreAuthRuns

namespace Farland
namespace Server
namespace PreAuth

open List PreAuth

open Auth.Credssp (Status PasswordCredentials)
open Proto

variable {N : Type}

/-! ### What is the same -/

def sentBytes : List PreAuthEntry → List UInt8
  | [] => []
  | .sent bytes :: log => sentBytes log ++ bytes
  | .received _ :: log | .tlsEstablished :: log | .event _ :: log => sentBytes log

/-- Newest first. -/
def events : List PreAuthEntry → List PreAuthEvent
  | [] => []
  | .event event :: log => event :: events log
  | .received _ :: log | .tlsEstablished :: log | .sent _ :: log => events log

/-- The same was sent and reported. -/
structure Agree (log log' : List PreAuthEntry) : Prop where
  sent : sentBytes log = sentBytes log'
  events : events log = events log'

/-- Both failed, or they differ in nothing but the cuts. -/
def SameOutcome (p q : PreAuth N) : Prop :=
  p.state = .failed ∧ q.state = .failed ∨ ∃ log, q = { p with log } ∧ Agree p.log log

theorem sentBytes_append : ∀ newer log : List PreAuthEntry, sentBytes (newer ++ log) = sentBytes log ++ sentBytes newer
  | [], log => (append_nil _).symm
  | .sent bytes :: newer, log => by
    show sentBytes (newer ++ log) ++ bytes = _
    rw [sentBytes_append newer log, append_assoc]
    rfl
  | .received _ :: newer, log => sentBytes_append newer log
  | .tlsEstablished :: newer, log => sentBytes_append newer log
  | .event _ :: newer, log => sentBytes_append newer log

theorem events_append : ∀ newer log : List PreAuthEntry, events (newer ++ log) = events newer ++ events log
  | [], _ => rfl
  | .event _ :: newer, log => congrArg (List.cons _) (events_append newer log)
  | .received _ :: newer, log => events_append newer log
  | .tlsEstablished :: newer, log => events_append newer log
  | .sent _ :: newer, log => events_append newer log

theorem Agree.refl (log : List PreAuthEntry) : Agree log log := ⟨rfl, rfl⟩

theorem Agree.append {log log' : List PreAuthEntry} (h : Agree log log') (newer : List PreAuthEntry) :
    Agree (newer ++ log) (newer ++ log') where
  sent := by rw [sentBytes_append, sentBytes_append, h.sent]
  events := by rw [events_append, events_append, h.events]

theorem SameOutcome.refl (p : PreAuth N) : SameOutcome p p := .inr ⟨p.log, rfl, Agree.refl p.log⟩

theorem SameOutcome.symm {p q : PreAuth N} (h : SameOutcome p q) : SameOutcome q p := by
  rcases h with ⟨hp, hq⟩ | ⟨log, rfl, hagree⟩
  · exact .inl ⟨hq, hp⟩
  · exact .inr ⟨p.log, rfl, hagree.sent.symm, hagree.events.symm⟩

theorem SameOutcome.trans {p q r : PreAuth N} (h : SameOutcome p q) (h' : SameOutcome q r) : SameOutcome p r := by
  rcases h with ⟨hp, hq⟩ | ⟨log, rfl, hagree⟩
  · rcases h' with ⟨-, hr⟩ | ⟨log, rfl, -⟩
    · exact .inl ⟨hp, hr⟩
    · exact .inl ⟨hp, hq⟩
  · rcases h' with ⟨hq, hr⟩ | ⟨log', rfl, hagree'⟩
    · exact .inl ⟨hq, hr⟩
    · exact .inr ⟨log', rfl, hagree.sent.trans hagree'.sent, hagree.events.trans hagree'.events⟩

/-! ### The log is only written -/

variable (A : NlaAcceptor N)

/-- What a call does does not depend on the log. -/
def LogBlind (f : PreAuth N → Option (PreAuth N)) : Prop :=
  ∀ p, ∃ newer, ∀ log, f { p with log } = (f p).map fun r => { r with log := newer ++ log }

theorem pumpNla_log (p : PreAuth N) (acceptor : N) :
    ∃ newer, ∀ log, pumpNla { p with log } A acceptor = { p.pumpNla A acceptor with log := newer ++ log } := by
  unfold pumpNla
  dsimp only
  match A.status (A.takeOutput acceptor).2 with
  | .inProgress => exact ⟨[.sent (A.takeOutput acceptor).1], fun _ => rfl⟩
  | .failed =>
    exact ⟨[.event (.failed ("NLA failed: " ++ A.failureReason (A.takeOutput acceptor).2)),
      .sent (A.takeOutput acceptor).1], fun _ => rfl⟩
  | .succeeded =>
    refine ⟨.event .ready :: (earlyResult p.negotiation ++
      [.event (.authenticated (A.identity (A.takeOutput acceptor).2) (A.takeCredentials (A.takeOutput acceptor).2).1),
        .sent (A.takeOutput acceptor).1]), fun log => ?_⟩
    simp [succeed, finish, note]

theorem onConnectionRequest_log (packet : List UInt8) : LogBlind (N := N) fun p => p.onConnectionRequest packet := by
  intro p
  unfold onConnectionRequest
  match decodeRequest packet with
  | .error e => exact ⟨[.event (.failed e.message)], fun _ => rfl⟩
  | .ok request =>
    dsimp only
    match request.negotiation with
    | none =>
      exact ⟨[.event (.failed "client does not negotiate a security protocol (Standard RDP Security is not supported)")],
        fun _ => rfl⟩
    | some n =>
      unfold negotiate
      dsimp only
      match select p.config n.requestedProtocols with
      | none =>
        match encodeConnectionConfirm (.failure (refusal p.config).value) with
        | none => exact ⟨[], fun _ => rfl⟩
        | some confirm =>
          exact ⟨[.event (.failed ("client requested protocols 0x" ++ hex n.requestedProtocols ++
            ", none of which this server accepts")), .sent confirm], fun _ => rfl⟩
      | some selected =>
        dsimp only
        match encodeConnectionConfirm (.response ⟨responseFlags p.config, selected⟩) with
        | none => exact ⟨[], fun _ => rfl⟩
        | some confirm => exact ⟨[.event .startTls, .sent confirm], fun _ => rfl⟩

theorem receiveRequest_log (bytes : List UInt8) : LogBlind (N := N) fun p => p.receiveRequest bytes := by
  intro p
  unfold receiveRequest
  dsimp only
  match peekFrame (p.input ++ bytes) with
  | .error e => exact ⟨[.event (.failed e.message)], fun _ => rfl⟩
  | .ok none => exact ⟨[], fun _ => rfl⟩
  | .ok (some header) =>
    dsimp only
    split_ifs
    · exact ⟨[.event (.failed "expected an X.224 Connection Request")], fun _ => rfl⟩
    · exact ⟨[], fun _ => rfl⟩
    · exact ⟨[.event (.failed "client data after the X.224 Connection Request")], fun _ => rfl⟩
    · exact onConnectionRequest_log (p.input ++ bytes) { p with input := [] }

theorem receive_log (bytes : List UInt8) : LogBlind fun p : PreAuth N => p.receive A bytes := by
  rintro ⟨config, makeNla, state, negotiation, input, log⟩
  cases state with
  | waitConnectionRequest => exact receiveRequest_log bytes ⟨config, makeNla, .waitConnectionRequest, negotiation,
    input, log⟩
  | waitTls => exact ⟨[.event (.failed "client data before the TLS handshake completed")], fun _ => rfl⟩
  | nla acceptor =>
    obtain ⟨newer, hnewer⟩ := pumpNla_log A ⟨config, makeNla, .nla acceptor, negotiation, input, log⟩
      (A.receive bytes acceptor)
    exact ⟨newer, fun log => congrArg some (hnewer log)⟩
  | ready | failed => exact ⟨[], fun _ => rfl⟩

theorem tlsEstablished_log : LogBlind fun p : PreAuth N => p.tlsEstablished A := by
  rintro ⟨config, makeNla, state, negotiation, input, log⟩
  cases state with
  | waitTls =>
    unfold tlsEstablished
    by_cases hssl : negotiation.selectedProtocol = Protocol.ssl
    · simp only [if_pos hssl]
      exact ⟨[.event .ready], fun _ => rfl⟩
    · simp only [if_neg hssl]
      cases makeNla with
      | none => exact ⟨[], fun _ => rfl⟩
      | some acceptor =>
        obtain ⟨newer, hnewer⟩ := pumpNla_log A ⟨config, some acceptor, .waitTls, negotiation, input, log⟩ acceptor
        exact ⟨newer, fun log => congrArg some (hnewer log)⟩
  | waitConnectionRequest | nla _ | ready | failed =>
    exact ⟨[.event (.failed "TLS established in the wrong state")], fun _ => rfl⟩

variable {f : PreAuth N → Option (PreAuth N)}

theorem LogBlind.note (h : LogBlind f) (entry : PreAuthEntry) : LogBlind fun p => f (p.note entry) := by
  intro p
  obtain ⟨newer, hnewer⟩ := h p
  refine ⟨newer ++ [entry], fun log => ?_⟩
  show f { p with log := entry :: log } = (f { p with log := entry :: p.log }).map _
  rw [hnewer (entry :: log), hnewer (entry :: p.log), Option.map_map]
  congr 1
  funext r
  simp

theorem perform_log : ∀ call : Call, LogBlind fun p : PreAuth N => p.perform A call
  | .receive bytes => (receive_log A bytes).note (.received bytes)
  | .tlsEstablished => (tlsEstablished_log A).note .tlsEstablished

/-- Where the log is another one, so is that of the result, by the same entries. -/
theorem LogBlind.relog (h : LogBlind f) {p p' : PreAuth N} (hp : f p = some p') {log : List PreAuthEntry}
    (hagree : Agree p.log log) : ∃ log', f { p with log } = some { p' with log := log' } ∧ Agree p'.log log' := by
  obtain ⟨newer, hnewer⟩ := h p
  have hown : f p = (f p).map fun r => { r with log := newer ++ p.log } := hnewer p.log
  rw [hp] at hown
  have hlog : p'.log = newer ++ p.log := congrArg PreAuth.log (Option.some.inj hown)
  refine ⟨newer ++ log, ?_, ?_⟩
  · rw [hnewer log, hp]
    rfl
  · rw [hlog]
    exact hagree.append newer

/-- An acceptor that does not count the pieces: two of them, the first of which
comes while the handshake goes on, do what their bytes do in one. -/
structure Steady (start : N) : Prop where
  goesOn : ∀ {before xs ys}, xs ≠ [] → ys ≠ [] → A.status (drive A start before) = .inProgress →
    A.status (drive A start (xs :: before)) = .inProgress →
    A.takeOutput (A.receive (xs ++ ys) (drive A start before)) =
      ((A.takeOutput (A.receive xs (drive A start before))).1 ++
        (A.takeOutput (A.receive ys (drive A start (xs :: before)))).1, drive A start (ys :: xs :: before))
  fails : ∀ {before xs ys}, xs ≠ [] → ys ≠ [] → A.status (drive A start before) = .inProgress →
    A.status (drive A start (xs :: before)) = .failed → A.status (drive A start ((xs ++ ys) :: before)) = .failed
  succeeds : ∀ {before xs ys}, xs ≠ [] → ys ≠ [] → A.status (drive A start before) = .inProgress →
    A.status (drive A start (xs :: before)) = .succeeded →
    A.status (drive A start ((xs ++ ys) :: before)) = .succeeded ∧
      (A.takeOutput (A.receive (xs ++ ys) (drive A start before))).1 =
        (A.takeOutput (A.receive xs (drive A start before))).1 ∧
      A.identity (drive A start ((xs ++ ys) :: before)) = A.identity (drive A start (xs :: before)) ∧
      (A.takeCredentials (drive A start ((xs ++ ys) :: before))).1 =
        (A.takeCredentials (drive A start (xs :: before))).1 ∧
      (A.takeRemainingInput (A.takeCredentials (drive A start ((xs ++ ys) :: before))).2).1 =
        (A.takeRemainingInput (A.takeCredentials (drive A start (xs :: before))).2).1 ++ ys

/-! ### The same outcome goes on -/

section

variable {A} {config : PreAuthConfig} {makeNla : Option N} {p p' q : PreAuth N}

theorem perform_failed (h : p.state = .failed) (call : Call) : ∃ p', p.perform A call = some p' ∧
    p'.state = .failed := by
  match call with
  | .receive bytes =>
    refine ⟨p.note (.received bytes), ?_, h⟩
    show (p.note (.received bytes)).receive A bytes = _
    unfold receive
    rw [show (p.note (.received bytes)).state = .failed from h]
  | .tlsEstablished =>
    refine ⟨(p.note .tlsEstablished).fail "TLS established in the wrong state", ?_, rfl⟩
    show (p.note .tlsEstablished).tlsEstablished A = _
    unfold tlsEstablished
    rw [show (p.note .tlsEstablished).state = .failed from h]

theorem SameOutcome.perform (h : SameOutcome p q) {call : Call} (hp : p.perform A call = some p') :
    ∃ q', q.perform A call = some q' ∧ SameOutcome p' q' := by
  rcases h with ⟨hfailed, hfailed'⟩ | ⟨log, rfl, hagree⟩
  · obtain ⟨p₁, hp₁, hstate⟩ := perform_failed (A := A) hfailed call
    obtain ⟨q', hq', hstate'⟩ := perform_failed (A := A) hfailed' call
    obtain rfl := Option.some.inj (hp₁.symm.trans hp)
    exact ⟨q', hq', .inl ⟨hstate, hstate'⟩⟩
  · obtain ⟨log', hq', hagree'⟩ := (perform_log A call).relog hp hagree
    exact ⟨_, hq', .inr ⟨log', rfl, hagree'⟩⟩

theorem SameOutcome.run : ∀ {calls : List Call} {p q p' : PreAuth N}, SameOutcome p q → p.run A calls = some p' →
    ∃ q', q.run A calls = some q' ∧ SameOutcome p' q'
  | [], p, q, p', h, hp => by
    obtain rfl := Option.some.inj hp
    exact ⟨q, rfl, h⟩
  | call :: calls, p, q, p', h, hp => by
    rw [PreAuth.run] at hp
    obtain ⟨p₁, hp₁, hp⟩ := Option.bind_eq_some_iff.mp hp
    obtain ⟨q₁, hq₁, h₁⟩ := h.perform hp₁
    obtain ⟨q', hq', h'⟩ := @SameOutcome.run calls p₁ q₁ p' h₁ hp
    exact ⟨q', by rw [PreAuth.run, hq₁]; exact hq', h'⟩

/-! ### Two pieces of a request -/

theorem onConnectionRequest_state {packet : List UInt8} (h : p.onConnectionRequest packet = some p') :
    p'.state = .failed ∨ p'.state = .waitTls := by
  unfold onConnectionRequest at h
  split at h
  · obtain rfl := Option.some.inj h
    exact .inl rfl
  · dsimp only at h
    split at h
    · obtain rfl := Option.some.inj h
      exact .inl rfl
    · unfold negotiate at h
      split at h
      · obtain rfl := Option.some.inj h
        exact .inr rfl
      · obtain rfl := Option.some.inj h
        exact .inl rfl

/-- The pieces only count joined. -/
theorem receiveRequest_input (p : PreAuth N) (xs ys : List UInt8) :
    { p with input := p.input ++ xs }.receiveRequest ys = p.receiveRequest (xs ++ ys) := by
  unfold receiveRequest
  rw [append_assoc]

/-- What a first piece of the request does: it waits for more, or whatever follows fails. -/
theorem receiveRequest_split (p : PreAuth N) (xs : List UInt8) {ys : List UInt8} (hys : ys ≠ []) :
    p.receiveRequest xs = some { p with input := p.input ++ xs } ∨
      (∀ p₁, p.receiveRequest xs = some p₁ → p₁.state = .failed ∨ p₁.state = .waitTls) ∧
        ∃ q, p.receiveRequest (xs ++ ys) = some q ∧ q.state = .failed := by
  have hmore := peekFrame_append (p.input ++ xs) ys
  rw [append_assoc] at hmore
  have hpos : 0 < ys.length := length_pos_iff.mpr hys
  unfold receiveRequest
  dsimp only
  match hframe : peekFrame (p.input ++ xs) with
  | .ok none => exact .inl rfl
  | .error e =>
    rw [hframe] at hmore
    rw [hmore.resolve_left (by simp)]
    refine .inr ⟨fun p₁ hp₁ => ?_, _, rfl, rfl⟩
    obtain rfl := Option.some.inj hp₁
    exact .inl rfl
  | .ok (some header) =>
    rw [hframe] at hmore
    rw [hmore.resolve_left (by simp)]
    dsimp only
    by_cases hbad : header.kind ≠ .tpkt ∨ header.length > maxConnectionRequest
    · rw [if_pos hbad, if_pos hbad]
      refine .inr ⟨fun p₁ hp₁ => ?_, _, rfl, rfl⟩
      obtain rfl := Option.some.inj hp₁
      exact .inl rfl
    · rw [if_neg hbad, if_neg hbad]
      by_cases hshort : (p.input ++ xs).length < header.length
      · rw [if_pos hshort]
        exact .inl rfl
      · have hlong : (p.input ++ (xs ++ ys)).length > header.length := by
          rw [← append_assoc, length_append]
          omega
        rw [if_neg (show ¬ (p.input ++ (xs ++ ys)).length < header.length by omega), if_pos hlong]
        refine .inr ⟨fun p₁ hp₁ => ?_, _, rfl, rfl⟩
        split_ifs at hp₁
        · obtain rfl := Option.some.inj hp₁
          exact .inl rfl
        · exact onConnectionRequest_state hp₁

/-! ### Two pieces of the stream -/

/-- What the log gets when the acceptor knows the client. -/
def announced (negotiation : Negotiation) (identity : Identity) (credentials : Option PasswordCredentials) :
    List PreAuthEntry :=
  .event .ready :: (earlyResult negotiation ++ [.event (.authenticated identity credentials)])

variable {output : List UInt8} {acceptor : N}

theorem pumpNla_inProgress {next : N} (htaken : A.takeOutput acceptor = (output, next))
    (h : A.status next = .inProgress) :
    p.pumpNla A acceptor = { p with state := .nla next, log := .sent output :: p.log } := by
  unfold pumpNla
  rw [htaken]
  dsimp only
  rw [h]
  rfl

theorem pumpNla_failed {next : N} (htaken : A.takeOutput acceptor = (output, next)) (h : A.status next = .failed) :
    (p.pumpNla A acceptor).state = .failed := by
  unfold pumpNla
  rw [htaken]
  dsimp only
  rw [h]
  rfl

theorem pumpNla_succeeded {next : N} (htaken : A.takeOutput acceptor = (output, next)) (h : A.status next = .succeeded)
    :
    p.pumpNla A acceptor = { p with
        state := .ready
        negotiation := { p.negotiation with identity := some (A.identity next) }
        input := (A.takeRemainingInput (A.takeCredentials next).2).1
        log := announced p.negotiation (A.identity next) (A.takeCredentials next).1 ++ .sent output :: p.log } := by
  unfold pumpNla
  rw [htaken]
  dsimp only
  rw [h]
  simp [succeed, finish, note, announced]

theorem perform_nla (h : p.state = .nla acceptor) (bytes : List UInt8) :
    p.perform A (.receive bytes) = some ((p.note (.received bytes)).pumpNla A (A.receive bytes acceptor)) := by
  show (p.note (.received bytes)).receive A bytes = _
  unfold receive
  rw [show (p.note (.received bytes)).state = .nla acceptor from h]

theorem perform_waiting (h : p.state = .waitConnectionRequest) (bytes : List UInt8) :
    p.perform A (.receive bytes) = (p.note (.received bytes)).receiveRequest bytes := by
  show (p.note (.received bytes)).receive A bytes = _
  unfold receive
  rw [show (p.note (.received bytes)).state = .waitConnectionRequest from h]

theorem perform_waitTls (h : p.state = .waitTls) (bytes : List UInt8) :
    ∃ p', p.perform A (.receive bytes) = some p' ∧ p'.state = .failed := by
  refine ⟨(p.note (.received bytes)).fail "client data before the TLS handshake completed", ?_, rfl⟩
  show (p.note (.received bytes)).receive A bytes = _
  unfold receive
  rw [show (p.note (.received bytes)).state = .waitTls from h]

theorem perform_ready (h : p.state = .ready) (bytes : List UInt8) :
    p.perform A (.receive bytes) =
      some { p with state := .ready, input := p.input ++ bytes, log := .received bytes :: p.log } := by
  show (p.note (.received bytes)).receive A bytes = _
  unfold receive
  rw [show (p.note (.received bytes)).state = .ready from h]
  rfl

/-- Two pieces do what their bytes do in one. -/
def Splits (A : NlaAcceptor N) (p : PreAuth N) (xs ys : List UInt8) : Prop :=
  ∃ p₁ p₂ q, p.perform A (.receive xs) = some p₁ ∧ p₁.perform A (.receive ys) = some p₂ ∧
    p.perform A (.receive (xs ++ ys)) = some q ∧ SameOutcome p₂ q

/-- When everything behind a piece fails. -/
theorem splits_failed {xs ys : List UInt8} {p₁ q : PreAuth N} (hp₁ : p.perform A (.receive xs) = some p₁)
    (hstate : p₁.state = .failed ∨ p₁.state = .waitTls) (hq : p.perform A (.receive (xs ++ ys)) = some q)
    (hfailed : q.state = .failed) : Splits A p xs ys := by
  have hnext : ∃ p₂, p₁.perform A (.receive ys) = some p₂ ∧ p₂.state = .failed :=
    hstate.elim (fun h => perform_failed h _) fun h => perform_waitTls h _
  obtain ⟨p₂, hp₂, hlast⟩ := hnext
  exact ⟨p₁, p₂, q, hp₁, hp₂, hq, .inl ⟨hlast, hfailed⟩⟩

theorem splits_waiting (hinv : Inv A config makeNla p) (h : p.state = .waitConnectionRequest) {xs ys : List UInt8}
    (hys : ys ≠ []) : Splits A p xs ys := by
  obtain ⟨p₁, hp₁, hinv₁⟩ := hinv.perform (.receive xs)
  have hblind : (p.note (.received xs)).receiveRequest xs = some p₁ := by rwa [← perform_waiting h xs]
  rcases receiveRequest_split (p.note (.received xs)) xs hys with hwaits | ⟨hends, q, hq, hfailed⟩
  · -- nothing is read before the second piece
    rw [hwaits] at hblind
    obtain rfl := Option.some.inj hblind
    obtain ⟨p₂, hp₂, -⟩ := hinv₁.perform (.receive ys)
    have hsecond : { p with input := p.input ++ xs, log := .received ys :: .received xs :: p.log }.receiveRequest ys =
        some p₂ := by
      rw [← hp₂]
      exact (perform_waiting (p := { p.note (.received xs) with input := p.input ++ xs }) h ys).symm
    rw [receiveRequest_input { p with log := .received ys :: .received xs :: p.log } xs ys] at hsecond
    have hagree : Agree (.received ys :: .received xs :: p.log) (.received (xs ++ ys) :: p.log) := ⟨rfl, rfl⟩
    obtain ⟨log', hq, hagree'⟩ := (receiveRequest_log (xs ++ ys)).relog hsecond hagree
    refine ⟨_, p₂, { p₂ with log := log' }, hp₁, hp₂, ?_, .inr ⟨log', rfl, hagree'⟩⟩
    rw [perform_waiting h]
    exact hq
  · have hagree : Agree (.received xs :: p.log) (.received (xs ++ ys) :: p.log) := ⟨rfl, rfl⟩
    obtain ⟨log', hq', -⟩ := (receiveRequest_log (xs ++ ys)).relog hq hagree
    refine splits_failed hp₁ (hends p₁ hblind) ?_ (q := { q with log := log' }) hfailed
    rw [perform_waiting h]
    exact hq'

theorem splits_nla (hinv : Inv A config makeNla p) (h : p.state = .nla acceptor)
    (hsteady : ∀ start, makeNla = some start → Steady A start) {xs ys : List UInt8} (hxs : xs ≠ []) (hys : ys ≠ []) :
    Splits A p xs ys := by
  have hcourse := hinv.course
  unfold Course at hcourse
  rw [h] at hcourse
  obtain ⟨start, before, hhandshake, rfl, hongoing⟩ := hcourse
  have hs := hsteady start hhandshake.made
  have hfirst := perform_nla (A := A) h xs
  have hwhole := perform_nla (A := A) h (xs ++ ys)
  let output := fun piece before => (A.takeOutput (A.receive piece (drive A start before))).1
  have htaken : ∀ piece before, A.takeOutput (A.receive piece (drive A start before)) =
      (output piece before, drive A start (piece :: before)) := fun _ _ => rfl
  match hstatus : A.status (drive A start (xs :: before)) with
  | .failed =>
    exact splits_failed hfirst (.inl (pumpNla_failed (htaken xs before) hstatus)) hwhole
      (pumpNla_failed (htaken (xs ++ ys) before) (hs.fails hxs hys hongoing hstatus))
  | .inProgress =>
    have hjoined : A.takeOutput (A.receive (xs ++ ys) (drive A start before)) =
        (output xs before ++ output ys (xs :: before), drive A start (ys :: xs :: before)) :=
      hs.goesOn hxs hys hongoing hstatus
    rw [pumpNla_inProgress (htaken xs before) hstatus] at hfirst
    let next : PreAuth N := { p.note (.received xs) with
        state := .nla (drive A start (xs :: before))
        log := .sent (output xs before) :: .received xs :: p.log }
    have hsecond := perform_nla (A := A) (show next.state = .nla (drive A start (xs :: before)) from rfl) ys
    refine ⟨next, _, _, hfirst, hsecond, hwhole, ?_⟩
    have hbefore : Agree
        (.sent (output ys (xs :: before)) :: .received ys :: .sent (output xs before) :: .received xs :: p.log)
        (.sent (output xs before ++ output ys (xs :: before)) :: .received (xs ++ ys) :: p.log) :=
      ⟨append_assoc _ _ _, rfl⟩
    match hlast : A.status (drive A start (ys :: xs :: before)) with
    | .failed => exact .inl ⟨pumpNla_failed (htaken ys _) hlast, pumpNla_failed hjoined hlast⟩
    | .inProgress =>
      rw [pumpNla_inProgress (htaken ys _) hlast, pumpNla_inProgress hjoined hlast]
      exact .inr ⟨_, rfl, hbefore⟩
    | .succeeded =>
      rw [pumpNla_succeeded (htaken ys _) hlast, pumpNla_succeeded hjoined hlast]
      exact .inr ⟨_, rfl, hbefore.append _⟩
  | .succeeded =>
    obtain ⟨hwholeStatus, hsent, hidentity, hcredentials, hremaining⟩ := hs.succeeds hxs hys hongoing hstatus
    have hsame : output (xs ++ ys) before = output xs before := hsent
    rw [pumpNla_succeeded (htaken xs before) hstatus] at hfirst
    rw [pumpNla_succeeded (htaken (xs ++ ys) before) hwholeStatus, hsame, hidentity, hcredentials, hremaining] at hwhole
    have hbefore : Agree (.sent (output xs before) :: .received xs :: p.log)
        (.sent (output xs before) :: .received (xs ++ ys) :: p.log) := ⟨rfl, rfl⟩
    refine ⟨_, _, _, hfirst, perform_ready rfl ys, hwhole, .inr ⟨_, rfl, ?_⟩⟩
    have hagree := hbefore.append (announced p.negotiation (A.identity (drive A start (xs :: before)))
      (A.takeCredentials (drive A start (xs :: before))).1)
    exact ⟨hagree.sent, hagree.events⟩

theorem splits (hinv : Inv A config makeNla p) (hsteady : ∀ start, makeNla = some start → Steady A start)
    {xs ys : List UInt8} (hxs : xs ≠ []) (hys : ys ≠ []) : Splits A p xs ys := by
  match h : p.state with
  | .waitConnectionRequest => exact splits_waiting hinv h hys
  | .waitTls =>
    obtain ⟨p₁, hp₁, hfailed⟩ := perform_waitTls (A := A) h xs
    obtain ⟨q, hq, hfailed'⟩ := perform_waitTls (A := A) h (xs ++ ys)
    exact splits_failed hp₁ (.inl hfailed) hq hfailed'
  | .nla acceptor => exact splits_nla hinv h hsteady hxs hys
  | .ready =>
    have hagree : Agree (.received ys :: .received xs :: p.log) (.received (xs ++ ys) :: p.log) := ⟨rfl, rfl⟩
    refine ⟨_, _, _, perform_ready h xs, perform_ready rfl ys, perform_ready h (xs ++ ys), .inr ⟨_, ?_, hagree⟩⟩
    rw [append_assoc]
  | .failed =>
    obtain ⟨p₁, hp₁, hfailed⟩ := perform_failed (A := A) h (.receive xs)
    obtain ⟨q, hq, hfailed'⟩ := perform_failed (A := A) h (.receive (xs ++ ys))
    exact splits_failed hp₁ (.inl hfailed) hq hfailed'

/-! ### The same bytes in other pieces -/

/-- The calls with neighbouring pieces joined. -/
def joined : List Call → List Call
  | [] => []
  | .tlsEstablished :: calls => .tlsEstablished :: joined calls
  | .receive xs :: calls =>
    match joined calls with
    | .receive ys :: rest => .receive (xs ++ ys) :: rest
    | rest => .receive xs :: rest

/-- No piece is empty. -/
def Whole (calls : List Call) : Prop := ∀ bytes, Call.receive bytes ∈ calls → bytes ≠ []

variable {calls : List Call}

theorem Whole.tail {call : Call} (h : Whole (call :: calls)) : Whole calls :=
  fun bytes hbytes => h bytes (mem_cons_of_mem _ hbytes)

theorem Whole.head {bytes : List UInt8} (h : Whole (.receive bytes :: calls)) : bytes ≠ [] := h bytes mem_cons_self

theorem Whole.cons {call : Call} (hcall : ∀ bytes, call = .receive bytes → bytes ≠ []) (h : Whole calls) :
    Whole (call :: calls) := by
  intro bytes hbytes
  rcases mem_cons.mp hbytes with heq | hmem
  · exact hcall bytes heq.symm
  · exact h bytes hmem

/-- A piece meets another one in front of the rest, or stands there by itself. -/
theorem joined_receive (xs : List UInt8) (calls : List Call) :
    (∃ ys rest, joined calls = .receive ys :: rest ∧ joined (.receive xs :: calls) = .receive (xs ++ ys) :: rest) ∨
      joined (.receive xs :: calls) = .receive xs :: joined calls := by
  rw [joined]
  split
  · next ys rest h => exact .inl ⟨ys, rest, h, rfl⟩
  · exact .inr rfl

theorem Whole.joined : ∀ {calls : List Call}, Whole calls → Whole (joined calls)
  | [], h => h
  | .tlsEstablished :: calls, h => by
    rw [PreAuth.joined]
    apply Whole.cons
    · intro bytes heq
      cases heq
    · exact @Whole.joined calls h.tail
  | .receive xs :: calls, h => by
    have hrest := @Whole.joined calls h.tail
    have hxs := h.head
    rcases joined_receive xs calls with ⟨ys, rest, hjoined, heq⟩ | heq
    · rw [hjoined] at hrest
      rw [heq]
      apply Whole.cons
      · intro bytes hbytes
        obtain rfl := Call.receive.inj hbytes
        exact append_ne_nil_of_left_ne_nil hxs ys
      · exact hrest.tail
    · rw [heq]
      apply Whole.cons
      · intro bytes hbytes
        obtain rfl := Call.receive.inj hbytes
        exact hxs
      · exact hrest

/-- A run in pieces ends as the one with the pieces joined. -/
theorem run_joined (hsteady : ∀ start, makeNla = some start → Steady A start) :
    ∀ {calls : List Call} {p : PreAuth N}, Inv A config makeNla p → Whole calls →
      ∃ r r', p.run A calls = some r ∧ p.run A (joined calls) = some r' ∧ SameOutcome r r'
  | [], p, _, _ => ⟨p, p, rfl, rfl, .refl p⟩
  | .tlsEstablished :: calls, p, hinv, h => by
    obtain ⟨p₁, hp₁, hinv₁⟩ := hinv.perform .tlsEstablished
    obtain ⟨r, r', hr, hr', hsame⟩ := @run_joined hsteady calls p₁ hinv₁ h.tail
    refine ⟨r, r', ?_, ?_, hsame⟩
    · rw [run, hp₁]
      exact hr
    · rw [joined, run, hp₁]
      exact hr'
  | .receive xs :: calls, p, hinv, h => by
    obtain ⟨p₁, hp₁, hinv₁⟩ := hinv.perform (.receive xs)
    obtain ⟨r, r', hr, hr', hsame⟩ := @run_joined hsteady calls p₁ hinv₁ h.tail
    have hrun : p.run A (.receive xs :: calls) = some r := by
      rw [run, hp₁]
      exact hr
    rcases joined_receive xs calls with ⟨ys, rest, hjoined, heq⟩ | heq
    · have hys : ys ≠ [] := by
        have hwhole := h.tail.joined
        rw [hjoined] at hwhole
        exact hwhole.head
      obtain ⟨p₁', p₂, q, hp₁', hp₂, hq, hsplit⟩ := splits hinv hsteady h.head hys
      obtain rfl := Option.some.inj (hp₁.symm.trans hp₁')
      rw [hjoined, run, hp₂] at hr'
      obtain ⟨s, hs, hend⟩ := hsplit.run hr'
      refine ⟨r, s, hrun, ?_, hsame.trans hend⟩
      rw [heq, run, hq]
      exact hs
    · refine ⟨r, r', hrun, ?_, hsame⟩
      rw [heq, run, hp₁]
      exact hr'

end

/-- **Nothing gets past pre-authentication**: whatever the transport and the
acceptor do, it goes on, `ready` comes at most once and behind everything that
has to come first, and other cuts of the same bytes come out the same. -/
theorem run_gate (config : PreAuthConfig) (makeNla : Option N) (calls : List Call) :
    ∃ p, (create config makeNla).run A calls = some p ∧ Gate A config makeNla p ∧
      ((∀ start, makeNla = some start → Steady A start) → Whole calls →
        ∀ calls', Whole calls' → joined calls' = joined calls →
          ∃ p', (create config makeNla).run A calls' = some p' ∧ SameOutcome p p') := by
  have hcreate := inv_create (A := A) config makeNla
  obtain ⟨p, hrun, hinv⟩ := @run_inv _ A config makeNla calls _ hcreate
  refine ⟨p, hrun, hinv.gate, fun hsteady hwhole calls' hwhole' hjoined => ?_⟩
  obtain ⟨r, s, hr, hs, hsame⟩ := run_joined hsteady hcreate hwhole
  obtain ⟨r', s', hr', hs', hsame'⟩ := run_joined hsteady hcreate hwhole'
  obtain rfl := Option.some.inj (hrun.symm.trans hr)
  rw [hjoined] at hs'
  obtain rfl := Option.some.inj (hs.symm.trans hs')
  exact ⟨r', hr', hsame.trans hsame'.symm⟩

/-! ### A scripted acceptor

It answers "ok" to "hello" and then succeeds, or fails on anything else. -/

structure ScriptedNla where
  input : List UInt8 := []
  output : List UInt8 := []
  remaining : List UInt8 := []
  status : Status := .inProgress
  deriving DecidableEq

namespace ScriptedNla

def hello : List UInt8 := [0x68, 0x65, 0x6c, 0x6c, 0x6f]

def receive (bytes : List UInt8) (s : ScriptedNla) : ScriptedNla :=
  let input := s.input ++ bytes
  if s.status ≠ .inProgress ∨ input.length < hello.length then { s with input }
  else if input.take hello.length ≠ hello then { s with input, status := .failed, output := [0xee] }
  else { s with input, output := [0x6f, 0x6b], remaining := input.drop hello.length, status := .succeeded }

def alice : Text := [0x61, 0x6c, 0x69, 0x63, 0x65]

def lab : Text := [0x4c, 0x41, 0x42]

def acceptor : NlaAcceptor ScriptedNla where
  receive := receive
  takeOutput s := (s.output, { s with output := [] })
  status := status
  takeRemainingInput s := (s.remaining, { s with remaining := [] })
  identity _ := ⟨alice, lab⟩
  takeCredentials s := (some ⟨lab, alice, [0x70, 0x77]⟩, s)
  failureReason _ := "scripted failure"

/-- Nothing has come of the input yet. -/
def waiting (input : List UInt8) : ScriptedNla := { input }

theorem receive_waiting (input bytes : List UInt8) :
    (waiting input).receive bytes = if (input ++ bytes).length < hello.length then waiting (input ++ bytes)
      else if (input ++ bytes).take hello.length ≠ hello then ⟨input ++ bytes, [0xee], [], .failed⟩
      else ⟨input ++ bytes, [0x6f, 0x6b], (input ++ bytes).drop hello.length, .succeeded⟩ := by
  have hopen : ¬ (waiting input).status ≠ .inProgress := fun h => h rfl
  unfold receive
  simp only [hopen, false_or]
  rfl

theorem receive_status {bytes : List UInt8} {s : ScriptedNla} (h : s.status ≠ .inProgress) :
    (s.receive bytes).status = s.status := by
  unfold receive
  rw [if_pos (.inl h)]

/-- While the handshake goes on, the acceptor waits. -/
theorem drive_waiting : ∀ {before : List (List UInt8)},
    acceptor.status (drive acceptor {} before) = .inProgress → ∃ input, drive acceptor {} before = waiting input
  | [], _ => ⟨[], rfl⟩
  | piece :: before, h => by
    have hbefore : acceptor.status (drive acceptor {} before) = .inProgress := by
      by_contra hended
      exact hended ((receive_status hended).symm.trans h)
    obtain ⟨input, hinput⟩ := @drive_waiting before hbefore
    have hpiece : (receive piece (waiting input)).status = .inProgress := by
      rw [← hinput]
      exact h
    refine ⟨input ++ piece, ?_⟩
    show { receive piece (drive acceptor {} before) with output := [] } = _
    rw [receive_waiting] at hpiece
    rw [hinput, receive_waiting]
    split_ifs at hpiece ⊢
    rfl

theorem take_more {input : List UInt8} (h : ¬ input.length < hello.length) (ys : List UInt8) :
    (input ++ ys).take hello.length = input.take hello.length ∧
      (input ++ ys).drop hello.length = input.drop hello.length ++ ys ∧ ¬ (input ++ ys).length < hello.length := by
  have hle : hello.length ≤ input.length := Nat.le_of_not_lt h
  refine ⟨take_append_of_le_length hle, drop_append_of_le_length hle, ?_⟩
  rw [length_append]
  omega

/-- It does not count the pieces. -/
theorem steady : Steady acceptor {} where
  goesOn {before xs ys} _ _ hbefore hxs := by
    obtain ⟨input, hinput⟩ := drive_waiting hbefore
    have hstatus : (receive xs (waiting input)).status = .inProgress := by
      rw [← hinput]
      exact hxs
    have hfirst : receive xs (waiting input) = waiting (input ++ xs) := by
      rw [receive_waiting] at hstatus ⊢
      split_ifs at hstatus ⊢
      rfl
    have hnext : drive acceptor {} (xs :: before) = waiting (input ++ xs) := by
      show { receive xs (drive acceptor {} before) with output := [] } = _
      rw [hinput, hfirst]
      rfl
    have hjoined : receive (xs ++ ys) (waiting input) = receive ys (waiting (input ++ xs)) := by
      rw [receive_waiting, receive_waiting, append_assoc]
    show ((receive (xs ++ ys) (drive acceptor {} before)).output,
        { receive (xs ++ ys) (drive acceptor {} before) with output := [] }) =
      ((receive xs (drive acceptor {} before)).output ++ (receive ys (drive acceptor {} (xs :: before))).output,
        { receive ys (drive acceptor {} (xs :: before)) with output := [] })
    rw [hnext, hinput, hfirst, hjoined]
    rfl
  fails {before xs ys} _ _ hbefore hxs := by
    obtain ⟨input, hinput⟩ := drive_waiting hbefore
    have hstatus : (receive xs (waiting input)).status = .failed := by
      rw [← hinput]
      exact hxs
    show (receive (xs ++ ys) (drive acceptor {} before)).status = .failed
    rw [receive_waiting] at hstatus
    rw [hinput, receive_waiting, ← append_assoc]
    by_cases hshort : (input ++ xs).length < hello.length
    · rw [if_pos hshort] at hstatus
      cases hstatus
    · rw [if_neg hshort] at hstatus
      obtain ⟨htake, -, hlong⟩ := take_more hshort ys
      rw [if_neg hlong, htake]
      by_cases hwrong : (input ++ xs).take hello.length ≠ hello
      · rw [if_pos hwrong]
      · rw [if_neg hwrong] at hstatus
        cases hstatus
  succeeds {before xs ys} _ _ hbefore hxs := by
    obtain ⟨input, hinput⟩ := drive_waiting hbefore
    have hstatus : (receive xs (waiting input)).status = .succeeded := by
      rw [← hinput]
      exact hxs
    have hends : ¬ (input ++ xs).length < hello.length ∧ ¬ (input ++ xs).take hello.length ≠ hello := by
      rw [receive_waiting] at hstatus
      by_cases hshort : (input ++ xs).length < hello.length
      · rw [if_pos hshort] at hstatus
        cases hstatus
      · rw [if_neg hshort] at hstatus
        refine ⟨hshort, fun hwrong => ?_⟩
        rw [if_pos hwrong] at hstatus
        cases hstatus
    obtain ⟨htake, hdrop, hlong⟩ := take_more hends.1 ys
    have hfirst : receive xs (drive acceptor {} before) =
        ⟨input ++ xs, [0x6f, 0x6b], (input ++ xs).drop hello.length, .succeeded⟩ := by
      rw [hinput, receive_waiting, if_neg hends.1, if_neg hends.2]
    have hwhole : receive (xs ++ ys) (drive acceptor {} before) =
        ⟨input ++ xs ++ ys, [0x6f, 0x6b], (input ++ xs).drop hello.length ++ ys, .succeeded⟩ := by
      rw [hinput, receive_waiting, ← append_assoc, if_neg hlong, htake, if_neg hends.2, hdrop]
    refine ⟨?_, ?_, rfl, rfl, ?_⟩
    · show (receive (xs ++ ys) (drive acceptor {} before)).status = _
      rw [hwhole]
    · show (receive (xs ++ ys) (drive acceptor {} before)).output = (receive xs (drive acceptor {} before)).output
      rw [hwhole, hfirst]
    · show (receive (xs ++ ys) (drive acceptor {} before)).remaining =
        (receive xs (drive acceptor {} before)).remaining ++ ys
      rw [hwhole, hfirst]

end ScriptedNla

/-- A request for HYBRID or TLS. -/
def helloRequest : List UInt8 :=
  (encodeConnectionRequest { negotiation := some ⟨0, Protocol.ssl ||| Protocol.hybrid⟩ }).getD []

/-- A client that goes on before the handshake is over. -/
def helloCalls : List Call :=
  [.receive helloRequest, .tlsEstablished, .receive (ScriptedNla.hello ++ [0x21, 0x21])]

/-- The same bytes, cut elsewhere. -/
def helloPieces : List Call :=
  [.receive (helloRequest.take 3), .receive (helloRequest.drop 3), .tlsEstablished, .receive [0x68, 0x65],
    .receive [0x6c, 0x6c, 0x6f, 0x21], .receive [0x21]]

theorem whole_hello : Whole helloCalls ∧ Whole helloPieces := by
  constructor
  all_goals
    intro bytes hbytes heq
    rw [heq] at hbytes
    revert hbytes
    decide +kernel

theorem run_gate_hello :
    ∃ p p', (create {} (some {})).run ScriptedNla.acceptor helloCalls = some p ∧
      (create {} (some {})).run ScriptedNla.acceptor helloPieces = some p' ∧
      Gate ScriptedNla.acceptor {} (some {}) p ∧ SameOutcome p p' := by
  obtain ⟨p, hp, hgate, hcut⟩ := run_gate ScriptedNla.acceptor {} (some {}) helloCalls
  have hsteady : ∀ start : ScriptedNla, some {} = some start → Steady ScriptedNla.acceptor start := by
    rintro start heq
    obtain rfl := Option.some.inj heq
    exact ScriptedNla.steady
  obtain ⟨p', hp', hsame⟩ := hcut hsteady whole_hello.1 helloPieces whole_hello.2 (by decide +kernel)
  exact ⟨p, p', hp, hp', hgate, hsame⟩

example : ((create {} (some {})).run ScriptedNla.acceptor helloPieces).map (fun p => p.takeRemainingInput.1) =
    some [0x21, 0x21] := by
  decide +kernel

/-! ### Where the cuts matter -/

/-- An acceptor that succeeds at its second piece. -/
def countingNla : NlaAcceptor ℕ where
  receive _ n := n + 1
  takeOutput n := ([], n)
  status n := if n < 2 then .inProgress else .succeeded
  takeRemainingInput n := ([], n)
  identity _ := ⟨ScriptedNla.alice, ScriptedNla.lab⟩
  takeCredentials n := (none, n)
  failureReason _ := ""

/-- How often a run reports that it is ready. -/
def timesReady (A : NlaAcceptor N) (config : PreAuthConfig) (makeNla : Option N) (calls : List Call) : Option ℕ :=
  ((create config makeNla).run A calls).map fun p => p.log.countP isReady

/-- An empty piece is one that came too early, and an acceptor may count. -/
theorem cut_matters :
    joined [.receive helloRequest, .receive [], .tlsEstablished] = joined [.receive helloRequest, .tlsEstablished] ∧
    timesReady countingNla { requireNla := false } none [.receive helloRequest, .tlsEstablished] = some 1 ∧
    timesReady countingNla { requireNla := false } none [.receive helloRequest, .receive [], .tlsEstablished] = some 0 ∧
    joined [.receive helloRequest, .tlsEstablished, .receive [0x61], .receive [0x62]] =
      joined [.receive helloRequest, .tlsEstablished, .receive [0x61, 0x62]] ∧
    timesReady countingNla {} (some 0) [.receive helloRequest, .tlsEstablished, .receive [0x61], .receive [0x62]] =
      some 1 ∧
    timesReady countingNla {} (some 0) [.receive helloRequest, .tlsEstablished, .receive [0x61, 0x62]] = some 0 := by
  decide +kernel

end PreAuth
end Server
end Farland
