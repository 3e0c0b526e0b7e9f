/-
# What pre-authentication lets in as a broker message

What the network process reports reaches farlandd through the privsep channel
and leaves it, in a NewConnection or a ConsentRequest, through the broker. The
names of the user and the requested and selected protocols that the first
protocol lets through fit the second, and the peer and everything in a prompt
are cut to size in between; the cookie and the password that was delegated are
not. A client whose cookie has more than 256 bytes, or whose password has more
than 512, therefore fails an assertion of `encode` and takes farlandd down.

Key theorems: `authenticate_encodes`, `abort_on_long_cookie`.
-/
import Farland.Daemon.Preauth
import Farland.Server.BrokerRoundTrip

namespace Farland
namespace Server
namespace Privsep

open Reader

/-! ### What the network process can report -/

/-- The strings of a report are within the limit of the channel. -/
structure Reported (n : Negotiation) : Prop where
  cookie : n.cookie.length ≤ maxString
  requested : n.requestedProtocols < 2 ^ 32
  identity : ∀ i, n.identity = some i → i.user.length ≤ maxString ∧ i.domain.length ≤ maxString

open Parse

theorem readString_gives : readString.Gives (·.length ≤ maxString) :=
  .next fun _ => .next fun size => .ite (fun _ => .fail _ _ _) fun hsize =>
    (bytes_gives size).imp fun _ ht => ht.symm ▸ not_lt.mp hsize

/-- A message that reports what the channel can carry. -/
def Message.Bounded (message : Message) : Prop := ∀ n, message = .authenticated n → Reported n

theorem decodeAuthenticated_gives : decodeAuthenticated.Gives Message.Bounded := by
  refine readString_gives.bind fun cookie hcookie => (readLe_gives 4).bind fun requested hrequested => ?_
  refine .next fun selected => .next fun hasIdentity => .ite (fun _ => ?_) fun _ => ?_
  · refine readString_gives.bind fun user huser => readString_gives.bind fun domain hdomain => .pure ?_
    intro n hn
    cases hn
    refine ⟨hcookie, hrequested, fun i hi => ?_⟩
    cases hi
    exact ⟨huser, hdomain⟩
  · refine .pure fun n hn => ?_
    cases hn
    exact ⟨hcookie, hrequested, fun i hi => by cases hi⟩

theorem filling_gives {p : Parse Message} {Q : Message → Prop} (h : p.Gives Q) : (filling p).Gives Q :=
  h.bind fun _ hm => .next fun _ => .pure hm

/-- The other messages report nothing. -/
theorem decodeBody_gives : decodeBody.Gives Message.Bounded := by
  refine .next fun type => ?_
  split
  · refine filling_gives (.next fun _ => .next fun _ => .next fun _ => .next fun _ => .next fun _ => ?_)
    exact .ite (fun _ => .fail _ _ _) fun _ => .next fun _ => .pure fun _ hn => by cases hn
  · refine filling_gives (.next fun _ => .ite (fun _ => .next fun _ => .pure ?_) fun _ => .pure ?_)
    · exact fun _ hn => by cases hn
    · exact fun _ hn => by cases hn
  · exact filling_gives (.next fun _ => .next fun _ => .next fun _ => .pure fun _ hn => by cases hn)
  · exact filling_gives (.next fun _ => .pure fun _ hn => by cases hn)
  · exact filling_gives decodeAuthenticated_gives
  · refine .next fun op => ?_
    cases KerberosOp.ofCode op with
    | none => exact .fail _ _ _
    | some op => exact .next fun _ => .next fun _ => .next fun _ => .pure fun _ hn => by cases hn
  · refine .next fun _ => .next fun _ => .next fun _ => .next fun _ => .next fun _ => .pure ?_
    exact fun _ hn => by cases hn
  · exact .fail _ _ _

/-- **What a report can contain.** -/
theorem decode_reported {frame : List UInt8} {n : Negotiation} (h : decode frame = .ok (.authenticated n)) :
    Reported n := by
  unfold decode at h
  rcases hl : u32le { rest := frame } with e | ⟨length, outer⟩
  · rw [hl] at h
    cases h
  · rw [hl] at h
    change (if length ≠ outer.remaining ∨ length > maxMessageSize then _ else _) = _ at h
    split_ifs at h with hlen
    · cases h
    · rcases hb : decodeBody outer with e | ⟨message, r⟩
      · rw [hb] at h
        cases h
      · rw [hb] at h
        cases h
        exact decodeBody_gives outer _ r hb n rfl

namespace MonitorService

variable {s : MonitorService}

/-- Only a report changes what is authenticated. -/
theorem handleMessage_keeps {message : Message} {answers : Answers} {o : Outcome}
    (h : s.handleMessage message answers = some o) (hne : ∀ n, message ≠ .authenticated n) :
    o.service.authenticated = s.authenticated := by
  cases message with
  | verifyNtlmRequest user domain challenge response =>
    unfold handleMessage at h
    dsimp only at h
    split_ifs at h
    · rw [(replyWith_some h).1]
      rfl
    · rw [(replyWith_some h).1]
      cases answers.sessionBaseKey <;> rfl
  | verifyPasswordRequest user domain password =>
    unfold handleMessage at h
    dsimp only at h
    split_ifs at h <;> rw [(replyWith_some h).1] <;> rfl
  | kerberosRequest request =>
    unfold handleMessage at h
    dsimp only at h
    generalize hs1 : (if request.op = .step then s.raised else s) = s1 at h
    have hs : s1.authenticated = s.authenticated := by
      rw [← hs1]
      split_ifs <;> rfl
    split_ifs at h
    · rw [(replyWith_some h).1, hs]
    · obtain ⟨-, -, -, hkeep, -⟩ := handleKerberos_spec s1 request answers
      generalize s1.handleKerberos request answers = g at h hkeep
      obtain ⟨s2, response, consulted⟩ := g
      cases response with
      | ok response => rw [(replyWith_some h).1, hkeep, hs]
      | error e =>
        cases h
        rw [hkeep, hs]
  | authenticated n => exact absurd rfl (hne n)
  | verifyNtlmResponse _ | verifyPasswordResponse _ | kerberosResponse _ =>
    cases h
    rfl

theorem handleAuthenticated_reports {n n' : Negotiation} (h0 : s.authenticated = none)
    (h : (s.handleAuthenticated n').service.authenticated = some n) : n = n' := by
  unfold handleAuthenticated at h
  dsimp only at h
  have hno : ¬ s.authenticated = some n := by
    rw [h0]
    exact fun hn => by cases hn
  split_ifs at h
  · exact absurd h hno
  · cases h
    rfl
  · exact absurd h hno
  · exact absurd h hno
  · cases h
    rfl

/-- What `handle` newly accepts was reported, and is what the monitor may let
in. -/
theorem handle_accepts {frame : List UInt8} {answers : Answers} {o : Outcome} {n : Negotiation}
    (h : s.handle frame answers = some o) (h0 : s.authenticated = none) (hn : o.service.authenticated = some n) :
    Reported n ∧ Admits (· ∈ s.verified) n := by
  unfold handle at h
  cases hd : decode frame with
  | error e =>
    rw [hd] at h
    cases h
    rw [h0] at hn
    cases hn
  | ok message =>
    rw [hd] at h
    by_cases hm : ∃ n', message = .authenticated n'
    · obtain ⟨n', rfl⟩ := hm
      cases h
      rcases (handleAuthenticated_spec s n').reported with ⟨-, hsame⟩ | ⟨-, -, hsame | ⟨n₁, hn₁, hadmits⟩⟩
      · rw [hsame, h0] at hn
        cases hn
      · rw [hsame, h0] at hn
        cases hn
      · have hn' := handleAuthenticated_reports h0 hn₁
        rw [hn₁] at hn
        cases hn
        exact ⟨decode_reported (hn' ▸ hd), hadmits⟩
    · rw [handleMessage_keeps h fun n' hn' => hm ⟨n', hn'⟩, h0] at hn
      cases hn

end MonitorService
end Privsep
end Server
end Farland

namespace Farland
namespace Daemon

open Server Server.Broker Server.Privsep

/-! ### The clients that threads post -/

section

variable {ntHash : Text → NtHash}

/-- A negotiation that pre-authentication can end with. -/
def LetIn (n : Negotiation) : Prop := Reported n ∧ (n.identity.isSome → isNla n.selectedProtocol = true)

theorem awaitAuthentication_letIn : ∀ {arrivals : List Arrival} {v : StoreVerifier} {service : MonitorService}
    {v' : StoreVerifier} {n : Negotiation}, service.authenticated = none →
      awaitAuthentication ntHash v service arrivals = some (v', some n) → LetIn n
  | [], _, _, _, _, _, h => by cases h
  | a :: arrivals, v, service, v', n, h0, h => by
    unfold awaitAuthentication at h
    obtain ⟨o, ho, h⟩ := Option.bind_eq_some_iff.mp h
    dsimp only at h
    split at h
    · cases h
    · split_ifs at h
      · cases h
      · cases hauth : o.service.authenticated with
        | none =>
          simp only [MonitorService.takeAuthenticated, hauth] at h
          exact awaitAuthentication_letIn rfl h
        | some n' =>
          simp only [MonitorService.takeAuthenticated, hauth] at h
          cases h
          obtain ⟨hrep, hadmits⟩ := MonitorService.handle_accepts ho h0 hauth
          refine ⟨hrep, fun hid => ?_⟩
          by_contra hnla
          rw [MonitorService.Admits, if_neg hnla] at hadmits
          rw [hadmits] at hid
          cases hid

/-- **The negotiation of every client**: an NLA identity, and nothing that the
privsep channel cannot carry. -/
theorem Thread.authenticate_letIn {t : Thread} {id : ℕ} {client : Authenticated}
    (h : t.authenticate ntHash id = some client) : client.id = id ∧ Reported client.negotiation ∧
      isNla client.negotiation.selectedProtocol = true ∧ ∃ i, client.negotiation.identity = some i := by
  simp only [authenticate, Option.bind_eq_bind, Option.bind_eq_some_iff, Prod.exists] at h
  obtain ⟨v, _, hawait, n, rfl, i, hi, h⟩ := h
  cases h
  have hin : LetIn n := awaitAuthentication_letIn rfl hawait
  obtain ⟨hrep, hnla⟩ := hin
  exact ⟨rfl, hrep, hnla (by rw [hi]; rfl), i, hi⟩

end

/-! ### Their messages -/

/-- The NewConnection of `hand_over`. -/
def wireNewConnection (w : World) (client : Authenticated) : Wire.NewConnection where
  connectionId := client.id
  negotiation := client.negotiation
  password := client.password
  peer := client.peer.take 255
  elapsedMs := min ((w.now - client.accepted) / 10 ^ 6) 3600000

/-- Range of `takeover_timeout`, in seconds. -/
def minTakeoverTimeout : ℕ := 5
def maxTakeoverTimeout : ℕ := 300

/-- What the configuration lets through. -/
def PolicySection.Checked (policy : PolicySection) : Prop :=
  minTakeoverTimeout ≤ policy.takeoverTimeout ∧ policy.takeoverTimeout ≤ maxTakeoverTimeout

instance (policy : PolicySection) : Decidable policy.Checked := inferInstanceAs (Decidable (_ ∧ _))

/-- The client was turned away. -/
def Entry.refuses (connection : ℕ) : Entry → Bool
  | .refused c _ _ => c == connection
  | _ => false

/-- What the broker protocol can carry of a client. -/
structure Authenticated.Fits (client : Authenticated) : Prop where
  id : client.id ≠ 0
  cookie : client.negotiation.cookie.length ≤ Wire.maxShortString
  password : client.password.length ≤ Wire.maxPassword
  named : ∀ i, client.negotiation.identity = some i → i.user ≠ []

namespace Impl

/-- `handle` refuses the client. -/
def Refuses (d : Impl) (w : World) (client : Authenticated) : Prop :=
  ((d.handleAuthenticated w client).log.drop d.log.length).any (Entry.refuses client.id) = true

/-- The client can be handed over and asked about without a failed assertion,
and its agent takes the NewConnection. -/
def Encodes (d : Impl) (w : World) (client : Authenticated) : Prop :=
  (∃ frame, Wire.encode (.newConnection (wireNewConnection w client)) = some frame ∧
    ∃ message, Wire.decodeFrom .daemon frame true = .ok message) ∧
  ∀ session, (Wire.encode (.consentRequest (d.consent.ask session client.id (party client) w.now).2)).isSome

end Impl

section

variable {client : Authenticated}

theorem wireNewConnection_writable {w : World} (hrep : Reported client.negotiation) :
    (wireNewConnection w client).Writable ↔ client.id ≠ 0 ∧
      client.negotiation.cookie.length ≤ Wire.maxShortString ∧ client.password.length ≤ Wire.maxPassword := by
  constructor
  · exact fun h => ⟨h.connectionId, h.cookie, h.password⟩
  · rintro ⟨hid, hcookie, hpassword⟩
    refine ⟨hid, hcookie, hrep.identity, hpassword, ?_, fun c hc => (by cases hc), Nat.zero_le _⟩
    change (client.peer.take 255).length ≤ 256
    rw [List.length_take]
    omega

theorem wireNewConnection_wellFormed {w : World} (hrep : Reported client.negotiation) (hid : client.id < 2 ^ 64)
    (hnla : isNla client.negotiation.selectedProtocol = true) (hsome : client.negotiation.identity.isSome = true)
    (hnamed : ∀ i, client.negotiation.identity = some i → i.user ≠ []) : (wireNewConnection w client).WellFormed := by
  refine ⟨hid, ⟨hrep.requested, ?_, ?_, hnamed⟩, ?_, fun c hc => (by cases hc), fun c hc => (by cases hc)⟩
  · change Wire.knownProtocol client.negotiation.selectedProtocol = true
    rw [Wire.knownProtocol, hnla, Bool.or_true]
  · change client.negotiation.identity.isSome = _
    rw [hsome, ← hnla]
    rfl
  · change min _ 3600000 < 2 ^ 32
    omega

theorem ask_askable {consent : ConsentBroker} (hpolicy : consent.policy.Checked) (session : ℕ) (now : Time)
    (hid : client.id ≠ 0) : Wire.Askable (consent.ask session client.id (Impl.party client) now).2 := by
  have hshort : ∀ t : Text, (ConsentBroker.shorten t).length ≤ 255 := fun t => by
    unfold ConsentBroker.shorten
    rw [List.length_take]
    exact min_le_left _ _
  obtain ⟨hmin, hmax⟩ := hpolicy
  unfold minTakeoverTimeout at hmin
  unfold maxTakeoverTimeout at hmax
  refine ⟨hid, ⟨?_, ?_⟩, ?_, ?_, ?_⟩
  · change 1 ≤ consent.policy.takeoverTimeout
    omega
  · change consent.policy.takeoverTimeout ≤ 3600
    omega
  all_goals exact (hshort _).trans (by decide)

end

variable {ntHash : Text → NtHash}

/-- **Which clients can be brought to an agent**, of those that
pre-authentication lets in and `handle` takes. -/
theorem Thread.authenticate_encodes {t : Thread} {id : ℕ} {client : Authenticated}
    (h : t.authenticate ntHash id = some client) (hid : id < 2 ^ 64) (d : Impl) (hpolicy : d.consent.policy.Checked)
    (w w' : World) : (d.Refuses w client ∨ d.Encodes w' client) ↔ (d.Refuses w client ∨ client.Fits) := by
  obtain ⟨rfl, hrep, hnla, i, hi⟩ := authenticate_letIn h
  refine or_congr Iff.rfl ⟨?_, fun hfits => ?_⟩
  · rintro ⟨⟨frame, hframe, message, hmessage⟩, -⟩
    have hsome : (Wire.encode (.newConnection (wireNewConnection w' client))).isSome := by
      rw [hframe]
      rfl
    obtain ⟨h0, hcookie, hpassword⟩ := (wireNewConnection_writable hrep).mp (Wire.encode_newConnection_isSome.mp hsome)
    refine ⟨h0, hcookie, hpassword, fun j hj hu => ?_⟩
    obtain ⟨e, he⟩ := Wire.decodeFrom_nameless hframe hid hrep.requested hnla hj hu
    rw [he] at hmessage
    cases hmessage
  · have hwrite := (wireNewConnection_writable (w := w') hrep).mpr ⟨hfits.id, hfits.cookie, hfits.password⟩
    obtain ⟨frame, hframe⟩ := Option.isSome_iff_exists.mp (Wire.encode_newConnection_isSome.mpr hwrite)
    refine ⟨⟨frame, hframe, _, Wire.decodeFrom_newConnection hframe ?_⟩, fun session => ?_⟩
    · exact wireNewConnection_wellFormed hrep hid hnla (by rw [hi]; rfl) hfits.named
    · exact Wire.encode_consentRequest_isSome.mpr (ask_askable hpolicy session w'.now hfits.id)

namespace Impl

/-! ### A cookie that is too long -/

/-- `alice` logs in with NTLM, with a routing token of `n` bytes. -/
def withCookie (n : ℕ) : Thread where
  store := sampleStore (text "password")
  arrivals := [
    { frame := (Privsep.encode (.verifyNtlmRequest alice.user alice.domain (.replicate 8 0) [])).getD []
      others := { sessionBaseKey := some (.replicate 16 1) } },
    { frame := (Privsep.encode (.authenticated
        ⟨List.replicate n 97, protocolHybrid, protocolHybrid, some alice⟩)).getD [] }]

/-- The client that comes of it. -/
def cookied (n : ℕ) : Authenticated where
  id := 1
  account := alice.user
  negotiation := ⟨List.replicate n 97, protocolHybrid, protocolHybrid, some alice⟩

theorem withCookie_authenticate : (withCookie 257).authenticate sampleHash 1 = some (cookied 257) := by decide +kernel

/-- With a cookie of 20 bytes the client is brought to its session. -/
theorem short_cookie_encodes : (withCookie 20).authenticate sampleHash 1 = some (cookied 20) ∧
    ((start { noPam := true } {} []).Refuses {} (cookied 20) ∨
      (start { noPam := true } {} []).Encodes {} (cookied 20)) := by
  have hauth : (withCookie 20).authenticate sampleHash 1 = some (cookied 20) := by decide +kernel
  refine ⟨hauth, (Thread.authenticate_encodes hauth (by decide) _ (by decide) {} {}).mpr (.inr ?_)⟩
  exact ⟨by decide, by decide, by decide, fun i hi => by cases hi; decide⟩

/-- **A cookie of 257 bytes**: `handle` takes the client, and the NewConnection
fails an assertion. -/
theorem abort_on_long_cookie : ¬ ∀ (ntHash : Text → NtHash) (t : Thread) (id : ℕ) (client : Authenticated) (d : Impl)
    (w w' : World), t.authenticate ntHash id = some client → id < 2 ^ 64 → d.consent.policy.Checked →
      d.Refuses w client ∨ d.Encodes w' client := by
  intro h
  rcases h sampleHash (withCookie 257) 1 (cookied 257) (start { noPam := true } {} []) {} {} withCookie_authenticate
    (by decide) (by decide) with hrefuses | ⟨⟨frame, hframe, -⟩, -⟩
  · revert hrefuses
    unfold Refuses
    decide +kernel
  · have hnone : Wire.encode (.newConnection (wireNewConnection {} (cookied 257))) = none := by decide +kernel
    rw [hnone] at hframe
    cases hframe

end Impl
end Daemon
end Farland
