/-
# Runs of pre-authentication

What the log of a run looks like. In front of `ready` stands, newest first,
what `Passed` says: the acceptor's success and everything it was given since
the TLS handshake, that handshake, the Connection Confirm, and the bytes of
one Connection Request. Nothing else fits in between, so nothing that came in
before TLS is read after it.

Key theorems: `run_inv`, `Inv.gate`.
-/
import Farland.Server.PreAuth

namespace Farland
namespace Server
namespace PreAuth

open List

open Auth.Credssp (Status PasswordCredentials)
open Proto

variable {log : List PreAuthEntry} {negotiation : Negotiation} {pieces : List (List UInt8)}

variable {N : Type}

/-! ### What has to come before `ready` -/

/-- A protocol that both sides can, and that the configuration allows. -/
structure Selectable (config : PreAuthConfig) (makeNla : Option N) (requested selected : ℕ) : Prop where
  one : selected = Protocol.ssl ∨ selected = Protocol.hybrid ∨ selected = Protocol.hybridEx
  requested : requested &&& selected ≠ 0
  supported : config.supportedProtocols &&& selected ≠ 0
  required : config.requireNla → selected ≠ Protocol.ssl
  factory : selected ≠ Protocol.ssl → makeNla.isSome

/-- The log up to the Connection Confirm; the pieces of the request, newest first. -/
structure Opened (config : PreAuthConfig) (makeNla : Option N) (negotiation : Negotiation) (log : List PreAuthEntry)
    (pieces : List (List UInt8)) (confirm : List UInt8) (request : ConnectionRequest) (n : NegotiationRequest) :
    Prop where
  entries : log = .event .startTls :: .sent confirm :: pieces.map .received
  decoded : decodeRequest pieces.reverse.flatten = .ok request
  negotiates : request.negotiation = some n
  cookie : negotiation.cookie = request.cookie
  requestedProtocols : negotiation.requestedProtocols = n.requestedProtocols
  confirms : ∃ flags, confirmOf confirm = .ok (.response ⟨flags, negotiation.selectedProtocol⟩)
  selectable : Selectable config makeNla n.requestedProtocols negotiation.selectedProtocol

def IsOpened (config : PreAuthConfig) (makeNla : Option N) (negotiation : Negotiation)
    (log : List PreAuthEntry) : Prop :=
  ∃ pieces confirm request n, Opened config makeNla negotiation log pieces confirm request n

variable (A : NlaAcceptor N)

/-- The acceptor after these pieces, newest first. -/
def drive (start : N) : List (List UInt8) → N
  | [] => (A.takeOutput start).2
  | piece :: before => (A.takeOutput (A.receive piece (drive start before))).2

/-- What the acceptor was given and what it sent, newest first. -/
def exchange (start : N) : List (List UInt8) → List PreAuthEntry
  | [] => [.sent (A.takeOutput start).1]
  | piece :: before =>
    .sent (A.takeOutput (A.receive piece (drive A start before))).1 :: .received piece :: exchange start before

/-- The handshake went on until its last piece. -/
def Ongoing (start : N) : List (List UInt8) → Prop
  | [] => True
  | _ :: before => A.status (drive A start before) = .inProgress ∧ Ongoing start before

/-- The log of a handshake, behind the TLS handshake and the Connection Confirm. -/
structure Handshake (config : PreAuthConfig) (makeNla : Option N) (negotiation : Negotiation)
    (log : List PreAuthEntry) (start : N) (pieces : List (List UInt8)) : Prop where
  made : makeNla = some start
  nla : negotiation.selectedProtocol ≠ Protocol.ssl
  opened : ∃ opening, IsOpened config makeNla negotiation opening ∧
    log = exchange A start pieces ++ .tlsEstablished :: opening
  ongoing : Ongoing A start pieces

/-- What has to be in the log before `ready`, and the input that is then left. -/
inductive Passed (config : PreAuthConfig) (makeNla : Option N) (negotiation : Negotiation) :
    List UInt8 → List PreAuthEntry → Prop
  | tls {opening : List PreAuthEntry} : IsOpened config makeNla negotiation opening →
      negotiation.selectedProtocol = Protocol.ssl → negotiation.identity = none →
      Passed config makeNla negotiation [] (.tlsEstablished :: opening)
  | nla {log : List PreAuthEntry} {start : N} {pieces : List (List UInt8)} :
      Handshake A config makeNla negotiation log start pieces →
      A.status (drive A start pieces) = .succeeded →
      negotiation.identity = some (A.identity (drive A start pieces)) →
      Passed config makeNla negotiation
        (A.takeRemainingInput (A.takeCredentials (drive A start pieces)).2).1
        (earlyResult negotiation ++ .event (.authenticated (A.identity (drive A start pieces))
          (A.takeCredentials (drive A start pieces)).1) :: log)

def isReady : PreAuthEntry → Bool
  | .event .ready => true
  | _ => false

def isAuthenticated : PreAuthEntry → Bool
  | .event (.authenticated _ _) => true
  | _ => false

/-- Nothing that starts or ends a stage. -/
def Quiet (log : List PreAuthEntry) : Prop := ∀ e ∈ log, isReady e = false ∧ isAuthenticated e = false

/-- Nothing gets past pre-authentication. -/
structure Gate (config : PreAuthConfig) (makeNla : Option N) (p : PreAuth N) : Prop where
  once : p.log.countP isReady ≤ 1
  passed : ∀ newer older, p.log = newer ++ .event .ready :: older →
    Quiet newer ∧ ∃ rest, Passed A config makeNla p.negotiation rest older
  authenticated : p.log.countP isReady = 1 →
    p.log.countP isAuthenticated = if p.negotiation.selectedProtocol = Protocol.ssl then 0 else 1
  /-- What came after `ready` follows what the acceptor left. -/
  remaining : ∀ newer older, p.state = .ready → p.log = newer ++ .event .ready :: older →
    ∃ (pieces : List (List UInt8)) (rest : List UInt8), newer = pieces.map .received ∧
      Passed A config makeNla p.negotiation rest older ∧
      p.takeRemainingInput.1 = rest ++ pieces.reverse.flatten

/-! ### The invariant -/

/-- Where the log ends, by the state. -/
def Course (config : PreAuthConfig) (makeNla : Option N) (p : PreAuth N) : Prop :=
  match p.state with
  | .waitConnectionRequest =>
    ∃ pieces : List (List UInt8), p.log = pieces.map .received ∧ p.input = pieces.reverse.flatten ∧
      p.negotiation.identity = none
  | .waitTls => IsOpened config makeNla p.negotiation p.log ∧ p.input = [] ∧ p.negotiation.identity = none
  | .nla acceptor => ∃ start pieces, Handshake A config makeNla p.negotiation p.log start pieces ∧
      acceptor = drive A start pieces ∧ A.status acceptor = .inProgress
  | .ready => ∃ (pieces : List (List UInt8)) (older : List PreAuthEntry) (rest : List UInt8),
      p.log = pieces.map .received ++ .event .ready :: older ∧ Passed A config makeNla p.negotiation rest older ∧
        p.input = rest ++ pieces.reverse.flatten
  | .failed => Quiet p.log ∨ ∃ newer older rest, p.log = newer ++ .event .ready :: older ∧ Quiet newer ∧
      Passed A config makeNla p.negotiation rest older

structure Inv (config : PreAuthConfig) (makeNla : Option N) (p : PreAuth N) : Prop where
  sameConfig : p.config = (create config makeNla).config
  sameFactory : p.makeNla = makeNla
  course : Course A config makeNla p

section

variable {A} {config : PreAuthConfig} {makeNla : Option N} {p p' : PreAuth N}

/-! ### Quiet logs -/

theorem quiet_cons {e : PreAuthEntry} (he : isReady e = false ∧ isAuthenticated e = false)
    (h : Quiet log) : Quiet (e :: log) := forall_mem_cons.mpr ⟨he, h⟩

theorem quiet_append {newer older : List PreAuthEntry} (hnewer : Quiet newer) (holder : Quiet older) :
    Quiet (newer ++ older) := by
  intro e he
  rcases mem_append.mp he with he | he
  · exact hnewer e he
  · exact holder e he

theorem quiet_received (pieces : List (List UInt8)) : Quiet (pieces.map .received) := by
  intro e he
  obtain ⟨piece, -, rfl⟩ := mem_map.mp he
  exact ⟨rfl, rfl⟩

theorem IsOpened.quiet (h : IsOpened config makeNla negotiation log) : Quiet log := by
  obtain ⟨pieces, confirm, request, n, h⟩ := h
  rw [h.entries]
  exact quiet_cons ⟨rfl, rfl⟩ (quiet_cons ⟨rfl, rfl⟩ (quiet_received pieces))

theorem quiet_exchange (start : N) : ∀ pieces : List (List UInt8), Quiet (exchange A start pieces)
  | [] => quiet_cons ⟨rfl, rfl⟩ fun _ he => absurd he not_mem_nil
  | _ :: before => quiet_cons ⟨rfl, rfl⟩ (quiet_cons ⟨rfl, rfl⟩ (quiet_exchange start before))

theorem Handshake.quiet {start : N} (h : Handshake A config makeNla negotiation log start pieces) : Quiet log := by
  obtain ⟨opening, hopened, rfl⟩ := h.opened
  exact quiet_append (quiet_exchange start pieces) (quiet_cons ⟨rfl, rfl⟩ hopened.quiet)

theorem quiet_earlyResult (negotiation : Negotiation) : Quiet (earlyResult negotiation) := by
  unfold earlyResult
  split_ifs
  · exact quiet_cons ⟨rfl, rfl⟩ fun _ he => absurd he not_mem_nil
  · exact fun _ he => absurd he not_mem_nil

theorem Quiet.ready (h : Quiet log) : log.countP isReady = 0 := countP_eq_zero.mpr fun e he => by simp [(h e he).1]

theorem Quiet.authenticated (h : Quiet log) : log.countP isAuthenticated = 0 :=
  countP_eq_zero.mpr fun e he => by simp [(h e he).2]

theorem Passed.counts {rest : List UInt8} (h : Passed A config makeNla negotiation rest log) : log.countP isReady = 0 ∧
      log.countP isAuthenticated = if negotiation.selectedProtocol = Protocol.ssl then 0 else 1 := by
  cases h with
  | tls hopened hssl _ =>
    rw [countP_cons, countP_cons, hopened.quiet.ready, hopened.quiet.authenticated, if_pos hssl]
    exact ⟨rfl, rfl⟩
  | nla hhandshake _ _ =>
    have hearly := quiet_earlyResult negotiation
    rw [countP_append, countP_append, countP_cons, countP_cons, hearly.ready, hearly.authenticated,
      hhandshake.quiet.ready, hhandshake.quiet.authenticated, if_neg hhandshake.nla]
    exact ⟨rfl, rfl⟩

/-! ### One step keeps the invariant -/

/-- A failure before `ready`. -/
theorem course_fail_early (h : Quiet p.log) (reason : String) : Course A config makeNla (p.fail reason) :=
  .inl (quiet_cons ⟨rfl, rfl⟩ h)

/-- Before `ready` there is nothing loud in the log. -/
theorem Course.quiet (h : Course A config makeNla p) (hready : p.state ≠ .ready) (hfailed : p.state ≠ .failed) :
    Quiet p.log := by
  unfold Course at h
  match hstate : p.state with
  | .waitConnectionRequest =>
    rw [hstate] at h
    obtain ⟨pieces, hlog, -, -⟩ := h
    rw [hlog]
    exact quiet_received pieces
  | .waitTls =>
    rw [hstate] at h
    exact h.1.quiet
  | .nla acceptor =>
    rw [hstate] at h
    obtain ⟨start, pieces, hhandshake, -, -⟩ := h
    exact hhandshake.quiet
  | .ready => exact absurd hstate hready
  | .failed => exact absurd hstate hfailed

/-- A call in a state in which it must not come. -/
theorem course_fail (h : Course A config makeNla p) (entry : PreAuthEntry)
    (hentry : isReady entry = false ∧ isAuthenticated entry = false) (reason : String) :
    Course A config makeNla ((p.note entry).fail reason) := by
  have hnew : Quiet [.event (.failed reason), entry] :=
    quiet_cons ⟨rfl, rfl⟩ (quiet_cons hentry fun _ he => absurd he not_mem_nil)
  match hstate : p.state with
  | .waitConnectionRequest | .waitTls | .nla _ =>
    exact course_fail_early (quiet_cons hentry (h.quiet (by simp [hstate]) (by simp [hstate]))) reason
  | .ready =>
    unfold Course at h
    rw [hstate] at h
    obtain ⟨pieces, older, rest, hlog, hpassed, -⟩ := h
    refine .inr ⟨_ :: _ :: pieces.map .received, older, rest, ?_, quiet_append hnew (quiet_received pieces), hpassed⟩
    show _ :: _ :: p.log = _
    rw [hlog]
    rfl
  | .failed =>
    unfold Course at h
    rw [hstate] at h
    rcases h with hquiet | ⟨newer, older, rest, hlog, hquiet, hpassed⟩
    · exact .inl (quiet_append hnew hquiet)
    · refine .inr ⟨_ :: _ :: newer, older, rest, ?_, quiet_append hnew hquiet, hpassed⟩
      show _ :: _ :: p.log = _
      rw [hlog]
      rfl

/-! ### The Connection Request -/

/-- Of a set that is cut down, nothing else is left. -/
theorem and_ne_zero_left {a m s : ℕ} (h : a &&& m &&& s ≠ 0) : a &&& s ≠ 0 := by
  intro hzero
  apply h
  rw [Nat.and_assoc, Nat.and_comm m s, ← Nat.and_assoc, hzero, Nat.zero_and]

theorem withoutNla_hybrid (protocols : ℕ) : withoutNla protocols &&& Protocol.hybrid = 0 := by
  unfold withoutNla
  rw [Nat.and_assoc, show (0xFFFFFFF5 &&& Protocol.hybrid) = 0 from by decide, Nat.and_zero]

theorem withoutNla_hybridEx (protocols : ℕ) : withoutNla protocols &&& Protocol.hybridEx = 0 := by
  unfold withoutNla
  rw [Nat.and_assoc, show (0xFFFFFFF5 &&& Protocol.hybridEx) = 0 from by decide, Nat.and_zero]

@[simp] theorem create_requireNla (config : PreAuthConfig) (makeNla : Option N) :
    (create config makeNla).config.requireNla = config.requireNla := by
  unfold create
  split_ifs <;> rfl

/-- What is usable was asked for and is supported. -/
theorem usable_selected {config : PreAuthConfig} {makeNla : Option N} {requested selected : ℕ}
    (h : requested &&& (create config makeNla).config.supportedProtocols &&& selected ≠ 0) :
    requested &&& selected ≠ 0 ∧ (create config makeNla).config.supportedProtocols &&& selected ≠ 0 ∧
      config.supportedProtocols &&& selected ≠ 0 := by
  have hsupported : (create config makeNla).config.supportedProtocols &&& selected ≠ 0 := by
    rw [Nat.and_comm requested] at h
    exact and_ne_zero_left h
  refine ⟨and_ne_zero_left h, hsupported, ?_⟩
  unfold create at hsupported
  split_ifs at hsupported
  · exact and_ne_zero_left hsupported
  · exact hsupported

/-- Without a factory only TLS is left. -/
theorem create_factory {config : PreAuthConfig} {makeNla : Option N} {selected : ℕ}
    (hone : selected = Protocol.hybrid ∨ selected = Protocol.hybridEx)
    (h : (create config makeNla).config.supportedProtocols &&& selected ≠ 0) : makeNla.isSome := by
  by_contra hnone
  have hisNone : makeNla.isNone = true := by simpa using hnone
  unfold create at h
  rw [if_pos hisNone] at h
  rcases hone with rfl | rfl
  · exact h (withoutNla_hybrid _)
  · exact h (withoutNla_hybridEx _)

theorem select_selectable {config : PreAuthConfig} {makeNla : Option N} {requested selected : ℕ}
    (h : select (create config makeNla).config requested = some selected) :
    Selectable config makeNla requested selected := by
  unfold select at h
  dsimp only at h
  split_ifs at h with hex hhybrid hssl
  · obtain rfl := Option.some.inj h
    obtain ⟨hrequested, hcreated, hsupported⟩ := usable_selected hex
    exact ⟨.inr (.inr rfl), hrequested, hsupported, fun _ => by decide, fun _ => create_factory (.inr rfl) hcreated⟩
  · obtain rfl := Option.some.inj h
    obtain ⟨hrequested, hcreated, hsupported⟩ := usable_selected hhybrid
    exact ⟨.inr (.inl rfl), hrequested, hsupported, fun _ => by decide, fun _ => create_factory (.inl rfl) hcreated⟩
  · obtain rfl := Option.some.inj h
    obtain ⟨hrequested, -, hsupported⟩ := usable_selected hssl.2
    rw [create_requireNla] at hssl
    exact ⟨.inl rfl, hrequested, hsupported, fun hrequire => by simp [hssl.1] at hrequire, fun hne => absurd rfl hne⟩

/-- A request that is complete: the Connection Confirm is sent, or it fails. -/
theorem onConnectionRequest_course {packet : List UInt8}
    (hconfig : p.config = (create config makeNla).config) (hlog : p.log = pieces.map .received)
    (hinput : p.input = []) (hidentity : p.negotiation.identity = none) (hpacket : packet = pieces.reverse.flatten) :
    ∃ p', p.onConnectionRequest packet = some p' ∧ p'.config = p.config ∧ p'.makeNla = p.makeNla ∧
      Course A config makeNla p' := by
  have hquiet : Quiet p.log := by
    rw [hlog]
    exact quiet_received pieces
  unfold onConnectionRequest
  match hdecode : decodeRequest packet with
  | .error e => exact ⟨_, rfl, rfl, rfl, course_fail_early hquiet _⟩
  | .ok request =>
    dsimp only
    match hnegotiation : request.negotiation with
    | none => exact ⟨_, rfl, rfl, rfl, .inl (quiet_cons ⟨rfl, rfl⟩ hquiet)⟩
    | some n =>
      unfold negotiate
      dsimp only
      match hselect : select p.config n.requestedProtocols with
      | none =>
        exact ⟨_, rfl, rfl, rfl, .inl (quiet_cons ⟨rfl, rfl⟩ (quiet_cons ⟨rfl, rfl⟩ hquiet))⟩
      | some selected =>
        rw [hconfig] at hselect
        have hselectable := select_selectable hselect
        have hselected : selected < 2 ^ 32 := by
          rcases hselectable.one with rfl | rfl | rfl <;> decide
        have hflags : responseFlags p.config < 2 ^ 8 := by
          unfold responseFlags
          split_ifs <;> decide
        obtain ⟨confirm, hconfirm, hread⟩ := @confirmOf_encode
          (.response ⟨responseFlags p.config, selected⟩) ⟨hflags, hselected⟩
        dsimp only
        rw [hconfirm]
        refine ⟨_, rfl, rfl, rfl, ⟨pieces, confirm, request, n, ?_⟩, hinput, hidentity⟩
        exact
          { entries := by
              show _ :: _ :: p.log = _
              rw [hlog]
            decoded := by rw [← hpacket, hdecode]
            negotiates := hnegotiation
            cookie := rfl
            requestedProtocols := rfl
            confirms := ⟨responseFlags p.config, hread⟩
            selectable := hselectable }

theorem receiveRequest_course {bytes : List UInt8}
    (hstate : p.state = .waitConnectionRequest) (hconfig : p.config = (create config makeNla).config)
    (hlog : p.log = (bytes :: pieces).map .received) (hinput : p.input = pieces.reverse.flatten)
    (hidentity : p.negotiation.identity = none) :
    ∃ p', p.receiveRequest bytes = some p' ∧ p'.config = p.config ∧ p'.makeNla = p.makeNla ∧
      Course A config makeNla p' := by
  have hquiet : Quiet p.log := by
    rw [hlog]
    exact quiet_received _
  have hbytes : p.input ++ bytes = (bytes :: pieces).reverse.flatten := by
    rw [hinput, reverse_cons, flatten_append, flatten_singleton]
  have hwaiting : Course A config makeNla { p with input := p.input ++ bytes } := by
    unfold Course
    rw [hstate]
    exact ⟨_, hlog, hbytes, hidentity⟩
  unfold receiveRequest
  dsimp only
  match peekFrame (p.input ++ bytes) with
  | .error e => exact ⟨_, rfl, rfl, rfl, .inl (quiet_cons ⟨rfl, rfl⟩ hquiet)⟩
  | .ok none => exact ⟨_, rfl, rfl, rfl, hwaiting⟩
  | .ok (some header) =>
    dsimp only
    split_ifs
    · exact ⟨_, rfl, rfl, rfl, .inl (quiet_cons ⟨rfl, rfl⟩ hquiet)⟩
    · exact ⟨_, rfl, rfl, rfl, hwaiting⟩
    · exact ⟨_, rfl, rfl, rfl, .inl (quiet_cons ⟨rfl, rfl⟩ hquiet)⟩
    · exact onConnectionRequest_course (p := { p with input := [] }) hconfig hlog rfl hidentity hbytes

/-! ### The handshake of the acceptor -/

/-- Who the client is says nothing about what was negotiated. -/
theorem IsOpened.identified (h : IsOpened config makeNla negotiation log) (identity : Option Identity) :
    IsOpened config makeNla { negotiation with identity } log := by
  obtain ⟨pieces, confirm, request, n, h⟩ := h
  exact ⟨pieces, confirm, request, n, h.entries, h.decoded, h.negotiates, h.cookie, h.requestedProtocols, h.confirms,
    h.selectable⟩

theorem Handshake.identified {start : N} (h : Handshake A config makeNla negotiation log start pieces)
    (identity : Option Identity) : Handshake A config makeNla { negotiation with identity } log start pieces := by
  obtain ⟨opening, hopened, hlog⟩ := h.opened
  exact ⟨h.made, h.nla, ⟨opening, hopened.identified identity, hlog⟩, h.ongoing⟩

/-- After a call of the acceptor. -/
theorem pumpNla_course {acceptor start : N}
    (h : Handshake A config makeNla p.negotiation (.sent (A.takeOutput acceptor).1 :: p.log) start pieces)
    (hacceptor : (A.takeOutput acceptor).2 = drive A start pieces) :
    (p.pumpNla A acceptor).config = p.config ∧ (p.pumpNla A acceptor).makeNla = p.makeNla ∧
      Course A config makeNla (p.pumpNla A acceptor) := by
  unfold pumpNla
  dsimp only
  rw [hacceptor]
  match hstatus : A.status (drive A start pieces) with
  | .inProgress => exact ⟨rfl, rfl, start, pieces, h, rfl, hstatus⟩
  | .failed => exact ⟨rfl, rfl, .inl (quiet_cons ⟨rfl, rfl⟩ h.quiet)⟩
  | .succeeded =>
    have hpassed := Passed.nla (h.identified (some (A.identity (drive A start pieces)))) hstatus rfl
    exact ⟨rfl, rfl, [], _, _, rfl, hpassed, (append_nil _).symm⟩

/-! ### Every run -/

theorem Inv.perform (h : Inv A config makeNla p) (call : Call) :
    ∃ p', p.perform A call = some p' ∧ Inv A config makeNla p' := by
  have hcourse := h.course
  have hkeep : (∃ p', p.perform A call = some p' ∧ p'.config = p.config ∧ p'.makeNla = p.makeNla ∧
      Course A config makeNla p') → ∃ p', p.perform A call = some p' ∧ Inv A config makeNla p' := by
    rintro ⟨p', hperform, hconfig, hfactory, hcourse'⟩
    exact ⟨p', hperform, hconfig.trans h.sameConfig, hfactory.trans h.sameFactory, hcourse'⟩
  apply hkeep
  match call with
  | .receive bytes =>
    show ∃ p', (p.note (.received bytes)).receive A bytes = some p' ∧ _
    unfold PreAuth.receive
    match hstate : p.state with
    | .waitConnectionRequest =>
      unfold Course at hcourse
      rw [hstate] at hcourse
      obtain ⟨pieces, hlog, hinput, hidentity⟩ := hcourse
      exact receiveRequest_course (p := p.note (.received bytes)) hstate h.sameConfig
        (congrArg (List.cons _) hlog) hinput hidentity
    | .waitTls =>
      exact ⟨_, rfl, rfl, rfl, course_fail hcourse (.received bytes) ⟨rfl, rfl⟩ _⟩
    | .nla acceptor =>
      unfold Course at hcourse
      rw [hstate] at hcourse
      obtain ⟨start, pieces, hhandshake, rfl, hstatus⟩ := hcourse
      obtain ⟨opening, hopened, hlog⟩ := hhandshake.opened
      refine ⟨_, rfl, pumpNla_course ?_ (show _ = drive A start (bytes :: pieces) from rfl)⟩
      refine ⟨hhandshake.made, hhandshake.nla, ⟨opening, hopened, ?_⟩, hstatus, hhandshake.ongoing⟩
      show _ :: _ :: p.log = _
      rw [hlog]
      rfl
    | .ready =>
      unfold Course at hcourse
      rw [hstate] at hcourse
      obtain ⟨pieces, older, rest, hlog, hpassed, hinput⟩ := hcourse
      refine ⟨_, rfl, rfl, rfl, ?_⟩
      unfold Course
      refine ⟨bytes :: pieces, older, rest, congrArg (List.cons _) hlog, hpassed, ?_⟩
      show p.input ++ bytes = _
      rw [hinput, reverse_cons, flatten_append, flatten_singleton, append_assoc]
    | .failed =>
      refine ⟨_, rfl, rfl, rfl, ?_⟩
      unfold Course at hcourse ⊢
      rw [hstate] at hcourse
      rw [show (p.note (.received bytes)).state = _ from hstate]
      rcases hcourse with hquiet | ⟨newer, older, rest, hlog, hquiet, hpassed⟩
      · exact .inl (quiet_cons ⟨rfl, rfl⟩ hquiet)
      · exact .inr ⟨_ :: newer, older, rest, congrArg (List.cons _) hlog, quiet_cons ⟨rfl, rfl⟩ hquiet, hpassed⟩
  | .tlsEstablished =>
    show ∃ p', (p.note .tlsEstablished).tlsEstablished A = some p' ∧ _
    unfold PreAuth.tlsEstablished
    match hstate : p.state with
    | .waitTls =>
      unfold Course at hcourse
      rw [hstate] at hcourse
      obtain ⟨hopened, hinput, hidentity⟩ := hcourse
      by_cases hssl : p.negotiation.selectedProtocol = Protocol.ssl
      · rw [if_pos (show (p.note .tlsEstablished).negotiation.selectedProtocol = _ from hssl)]
        refine ⟨_, rfl, rfl, rfl, [], _, [], rfl, .tls hopened hssl hidentity, ?_⟩
        exact hinput
      · rw [if_neg (show ¬ (p.note .tlsEstablished).negotiation.selectedProtocol = _ from hssl)]
        have hsome : makeNla.isSome := by
          obtain ⟨_, _, _, _, hopened⟩ := hopened
          exact hopened.selectable.factory hssl
        obtain ⟨start, rfl⟩ := Option.isSome_iff_exists.mp hsome
        rw [show (p.note .tlsEstablished).makeNla = some start from h.sameFactory]
        refine ⟨_, rfl, pumpNla_course ?_ (show _ = drive A start [] from rfl)⟩
        exact ⟨rfl, hssl, ⟨p.log, hopened, rfl⟩, trivial⟩
    | .waitConnectionRequest | .nla _ | .ready | .failed =>
      exact ⟨_, rfl, rfl, rfl, course_fail hcourse .tlsEstablished ⟨rfl, rfl⟩ _⟩

theorem inv_create (config : PreAuthConfig) (makeNla : Option N) : Inv A config makeNla (create config makeNla) :=
  ⟨rfl, rfl, [], rfl, rfl, rfl⟩

theorem run_inv : ∀ {calls : List Call} {p : PreAuth N}, Inv A config makeNla p →
    ∃ p', p.run A calls = some p' ∧ Inv A config makeNla p'
  | [], p, h => ⟨p, rfl, h⟩
  | call :: calls, p, h => by
    obtain ⟨next, hnext, hinv⟩ := h.perform call
    obtain ⟨p', hrun, h'⟩ := @run_inv calls next hinv
    refine ⟨p', ?_, h'⟩
    rw [run, hnext]
    exact hrun

/-- `ready` stands in one place only. -/
theorem ready_unique {newer older newer' older' : List PreAuthEntry} (hnewer : Quiet newer)
    (holder : older.countP isReady = 0) (h : newer ++ .event .ready :: older = newer' ++ .event .ready :: older') :
    newer = newer' ∧ older = older' := by
  induction newer generalizing newer' with
  | nil =>
    cases newer' with
    | nil => exact ⟨rfl, (List.cons.inj h).2⟩
    | cons e newer' =>
      have hrest : older = newer' ++ .event .ready :: older' := (List.cons.inj h).2
      rw [hrest, countP_append, countP_cons_of_pos rfl] at holder
      omega
  | cons e newer ih =>
    cases newer' with
    | nil =>
      have he := (hnewer e mem_cons_self).1
      rw [(List.cons.inj h).1] at he
      cases he
    | cons e' newer' =>
      obtain ⟨rfl, hrest⟩ := List.cons.inj h
      obtain ⟨rfl, rfl⟩ := ih (fun x hx => hnewer x (mem_cons_of_mem _ hx)) hrest
      exact ⟨rfl, rfl⟩

/-- A log with `ready` in it. -/
theorem gate_of_passed {newer older : List PreAuthEntry} {rest : List UInt8}
    (hlog : p.log = newer ++ .event .ready :: older)
    (hquiet : Quiet newer) (hpassed : Passed A config makeNla p.negotiation rest older)
    (hready : p.state = .ready → ∃ pieces : List (List UInt8), newer = pieces.map .received ∧
      p.input = rest ++ pieces.reverse.flatten) : Gate A config makeNla p := by
  obtain ⟨hnoReady, hauthenticated⟩ := hpassed.counts
  refine ⟨?_, ?_, ?_, ?_⟩
  · rw [hlog, countP_append, countP_cons_of_pos rfl, hquiet.ready, hnoReady]
  · intro newer' older' hlog'
    obtain ⟨rfl, rfl⟩ := ready_unique hquiet hnoReady (hlog.symm.trans hlog')
    exact ⟨hquiet, rest, hpassed⟩
  · intro _
    rw [hlog, countP_append, countP_cons_of_neg (by decide), hquiet.authenticated, hauthenticated, Nat.zero_add]
  · intro newer' older' hstate hlog'
    obtain ⟨rfl, rfl⟩ := ready_unique hquiet hnoReady (hlog.symm.trans hlog')
    obtain ⟨pieces, hnewer, hinput⟩ := hready hstate
    exact ⟨pieces, rest, hnewer, hpassed, hinput⟩

/-- A log without it. -/
theorem gate_of_quiet (h : Quiet p.log) : Gate A config makeNla p := by
  have hnone : ∀ newer older, p.log ≠ newer ++ .event .ready :: older := by
    intro newer older hlog
    have hready := h (.event .ready) (by simp [hlog])
    cases hready.1
  refine ⟨?_, fun newer older hlog => absurd hlog (hnone newer older), fun hone => ?_,
    fun newer older _ hlog => absurd hlog (hnone newer older)⟩
  · rw [h.ready]
    exact Nat.zero_le _
  · rw [h.ready] at hone
    cases hone

theorem Inv.gate (h : Inv A config makeNla p) : Gate A config makeNla p := by
  have hcourse := h.course
  match hstate : p.state with
  | .waitConnectionRequest | .waitTls | .nla _ =>
    exact gate_of_quiet (hcourse.quiet (by simp [hstate]) (by simp [hstate]))
  | .ready =>
    unfold Course at hcourse
    rw [hstate] at hcourse
    obtain ⟨pieces, older, rest, hlog, hpassed, hinput⟩ := hcourse
    exact gate_of_passed hlog (quiet_received pieces) hpassed fun _ => ⟨pieces, rfl, hinput⟩
  | .failed =>
    unfold Course at hcourse
    rw [hstate] at hcourse
    rcases hcourse with hquiet | ⟨newer, older, rest, hlog, hquiet, hpassed⟩
    · exact gate_of_quiet hquiet
    · exact gate_of_passed hlog hquiet hpassed fun hready => by rw [hstate] at hready; cases hready

end

end PreAuth
end Server
end Farland
