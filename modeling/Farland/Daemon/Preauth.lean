/-
# Delegated passwords

The thread that `accept_client` starts for a connection: it answers the
network process with the monitor and a `StoreVerifier` until the network
process reports an identity, and posts the client to the loop. The verifier
keeps the last password that checked out; the client takes it along, and the
session's agent gets it in the NewConnection.

The network process chooses the user and the domain of every password request
and of its report. A password is therefore the client's own if the last one
that checked out was sent for the identity that is reported, and the loop
then brings no password to anybody else (`run_ownPassword`). It need not be so:
`password_of_another` reports one user after the password of another.
-/
import Farland.Daemon.Kept
import Farland.Server.Monitor

namespace Farland
namespace Daemon

open Server Server.Broker List Option

/-! ### The credential store -/

abbrev NtHash := List.Vector UInt8 16

structure CredentialEntry where
  user : Text
  /-- Empty: any domain. -/
  domain : Text := []
  hash : NtHash
  /-- Empty: the same as `user`. -/
  localAccount : Text := []
  deriving DecidableEq

/-- The local account this entry logs in as. -/
def CredentialEntry.account (e : CredentialEntry) : Text := if e.localAccount = [] then e.user else e.localAccount

structure CredentialStore where
  entries : List CredentialEntry
  deriving DecidableEq

namespace CredentialStore

def asciiLower (c : UInt8) : UInt8 := if 0x41 ≤ c ∧ c ≤ 0x5a then c + 0x20 else c

def iequals (a b : Text) : Bool := a.map asciiLower == b.map asciiLower

/-- An entry of the domain, or the last one of the user for any domain. -/
def findFrom (user domain : Text) : Option CredentialEntry → List CredentialEntry → Option CredentialEntry
  | wildcard, [] => wildcard
  | wildcard, e :: rest =>
    if iequals e.user user = false then findFrom user domain wildcard rest
    else if e.domain ≠ [] ∧ iequals e.domain domain then some e
    else if e.domain = [] then findFrom user domain (some e) rest
    else findFrom user domain wildcard rest

def find (store : CredentialStore) (user domain : Text) : Option CredentialEntry :=
  findFrom user domain none store.entries

def lookup (store : CredentialStore) (user domain : Text) : Option NtHash := (store.find user domain).map (·.hash)

end CredentialStore

/-! ### The verifier of one connection -/

structure StoreVerifier where
  store : CredentialStore
  /-- The delegated password, if the client sent one and it checked out. -/
  delegated : Text := []
  /-- The requests that checked out, for whom and with what; the code keeps no
  such list. -/
  accepted : List (Identity × Text) := []
  deriving DecidableEq

section

variable (ntHash : Text → NtHash)

namespace StoreVerifier

variable (v : StoreVerifier)

def verifyPassword (user domain password : Text) : StoreVerifier × Bool :=
  if v.store.lookup user domain = some (ntHash password) then
    ({ v with delegated := password, accepted := v.accepted ++ [(⟨user, domain⟩, password)] }, true)
  else (v, false)

/-- What the monitor is answered while it handles a frame. -/
def answers (frame : List UInt8) (others : Privsep.Answers) : Privsep.Answers :=
  match Privsep.decode frame with
  | .ok (.verifyPasswordRequest user domain password) =>
    { others with verifyPassword := (v.verifyPassword ntHash user domain password).2 }
  | _ => others

/-- The verifier after the frame, if it was asked. -/
def after (frame : List UInt8) (consulted : List Privsep.Consulted) : StoreVerifier :=
  match Privsep.decode frame, consulted with
  | .ok (.verifyPasswordRequest user domain password), [.verifyPassword _ _ _] =>
    (v.verifyPassword ntHash user domain password).1
  | _, _ => v

end StoreVerifier

/-- A frame of the network process, what the verifier says to NTLM responses
and the Kerberos context to tokens while it is handled, and whether the reply
gets away. -/
structure Arrival where
  frame : List UInt8
  others : Privsep.Answers := {}
  sent : Bool := true

/-- `await_authentication`: answers the network process until it reports a
finished pre-authentication. The arrivals are over when it has ended, its time
is up or farlandd stops. `none` is a failed assertion. -/
def awaitAuthentication : StoreVerifier → Privsep.MonitorService → List Arrival →
    Option (StoreVerifier × Option Negotiation)
  | v, _, [] => some (v, none)
  | v, service, a :: arrivals => do
    let o ← service.handle a.frame (v.answers ntHash a.frame a.others)
    let v := v.after ntHash a.frame o.consulted
    match o.reply with
    | .error _ => pure (v, none)
    | .ok reply =>
      if reply.isSome ∧ a.sent = false then pure (v, none)
      else
        match o.service.takeAuthenticated with
        | (_, some negotiation) => pure (v, some negotiation)
        | (service, none) => awaitAuthentication v service arrivals

/-- What the thread of a connection is given and sees. -/
structure Thread where
  peer : Text := []
  accepted : Time := 0
  store : CredentialStore
  /-- Kerberos is served. -/
  kerberos : Bool := false
  arrivals : List Arrival
  clientName : Text := []

def accountOf (store : CredentialStore) (identity : Identity) : Text :=
  ((store.find identity.user identity.domain).map (·.account)).getD identity.user

namespace Thread

variable (t : Thread)

def await : Option (StoreVerifier × Option Negotiation) :=
  awaitAuthentication ntHash { store := t.store } { kerberos := t.kerberos } t.arrivals

/-- The client that the thread posts. -/
def authenticate (id : ℕ) : Option Authenticated := do
  let (v, negotiation) ← t.await ntHash
  let negotiation ← negotiation
  let identity ← negotiation.identity
  pure
    { id, peer := t.peer, account := accountOf t.store identity, negotiation, clientName := t.clientName
      accepted := t.accepted, password := v.delegated }

/-- `verify_password` accepted the password for the identity. -/
def Verified (identity : Option Identity) (password : Text) : Prop :=
  ∃ v negotiation i, t.await ntHash = some (v, negotiation) ∧ identity = some i ∧ (i, password) ∈ v.accepted

/-- The last password that checked out was sent for the identity that the
network process reports. -/
def NamesItself : Prop :=
  ∀ v negotiation, t.await ntHash = some (v, some negotiation) →
    ∀ last, v.accepted.getLast? = some last → negotiation.identity = some last.1

end Thread

/-! ### What the verifier keeps -/

/-- The password that is kept is the last that checked out. -/
def StoreVerifier.KeepsLast (v : StoreVerifier) : Prop := v.delegated = (v.accepted.getLast?.map (·.2)).getD []

variable {ntHash}

theorem StoreVerifier.KeepsLast.verifyPassword {v : StoreVerifier} (h : v.KeepsLast) (user domain password : Text) :
    (v.verifyPassword ntHash user domain password).1.KeepsLast := by
  unfold StoreVerifier.verifyPassword
  split_ifs
  · simp [KeepsLast]
  · exact h

theorem StoreVerifier.KeepsLast.after {v : StoreVerifier} (h : v.KeepsLast) (frame : List UInt8)
    (consulted : List Privsep.Consulted) : (v.after ntHash frame consulted).KeepsLast := by
  unfold StoreVerifier.after
  split
  · exact h.verifyPassword _ _ _
  · exact h

theorem awaitAuthentication_keepsLast : ∀ {arrivals : List Arrival} {v : StoreVerifier}
    {service : Privsep.MonitorService} {v' : StoreVerifier} {n : Option Negotiation}, v.KeepsLast →
      awaitAuthentication ntHash v service arrivals = some (v', n) → v'.KeepsLast
  | [], v, service, v', n, hv, h => by
    cases h
    exact hv
  | a :: arrivals, v, service, v', n, hv, h => by
    unfold awaitAuthentication at h
    obtain ⟨o, -, h⟩ := bind_eq_some_iff.mp h
    have hafter : (v.after ntHash a.frame o.consulted).KeepsLast := hv.after _ _
    dsimp only at h
    split at h
    · cases h
      exact hafter
    · split_ifs at h
      · cases h
        exact hafter
      · split at h
        · cases h
          exact hafter
        · exact awaitAuthentication_keepsLast hafter h

/-- **What a thread posts**: the client's password is one that checked out for
the client. -/
theorem Thread.authenticate_verified {t : Thread} {id : ℕ} {client : Authenticated}
    (h : t.authenticate ntHash id = some client) (hn : t.NamesItself ntHash) (hp : client.password ≠ []) :
    t.Verified ntHash client.negotiation.identity client.password := by
  simp only [authenticate, bind_eq_bind, bind_eq_some_iff, Prod.exists] at h
  obtain ⟨v, _, hawait, n, rfl, identity, hid, h⟩ := h
  cases h
  have hlast : v.KeepsLast := awaitAuthentication_keepsLast (v := { store := t.store }) rfl hawait
  unfold StoreVerifier.KeepsLast at hlast
  cases hl : v.accepted.getLast? with
  | none => exact absurd (by rw [hlast, hl]; rfl) hp
  | some last =>
    have hpass : v.delegated = last.2 := by rw [hlast, hl]; rfl
    refine ⟨v, some n, last.1, hawait, hn v n hawait last hl, ?_⟩
    rw [hpass]
    exact mem_of_getLast? hl

end

/-! ### Where the clients of the loop come from -/

namespace Impl

section

variable {P : Authenticated → Prop} {d : Impl}

theorem Forwards.tick (h : Forwards P d) (w : World) : Forwards P (d.tick w) := by
  have hasked := ((h.kept.askTheSeat (bystanders_all d) w).terminateRequested w).expire w.now
  have hsettled : Forwards P ((((d.askTheSeat w).terminateRequested w).expire w.now).settle w) :=
    (hasked.settleLoop w _).forwards
  have hlost : Forwards P (((((d.askTheSeat w).terminateRequested w).expire w.now).settle w).applyPolicies
    w |>.giveUpLost w) := by
    exact Forwards.foldl (fun id h => h.giveUp w id) _ (hsettled.kept.applyPolicies w).forwards
  have hsilent := (hlost.kept.endSilent (bystanders_all _) w).forwards
  exact (hsilent.kept.endOverdue (spared_all w _)).forwards

theorem Forwards.endFound (h : Forwards P d) (id : ℕ) : Forwards P (d.endFound id) := (h.kept.endFound rfl).forwards

theorem Forwards.shutdown (h : Forwards P d) (w : World) : Forwards P (d.shutdown w) := by
  refine Forwards.foldl (fun {d} id h => ?_) _ (h.of_eq rfl rfl)
  split_ifs
  · have hw : Keeps P (fun _ => true) d []
        (d.modify id fun s => { s with terminateSent := some w.now, endTag := text "shutdown" }) :=
      h.kept.write rfl fun _ => ⟨rfl, rfl, rfl, rfl⟩
    exact (hw.endSession rfl none).forwards
  · exact h

theorem Forwards.authenticated (h : Forwards P d) (w : World) {client : Authenticated} (hP : P client) :
    Forwards P (d.handleAuthenticated w client) := by
  obtain ⟨_, -, hk⟩ := h.kept.handleAuthenticated w hP rfl fun _ _ _ => rfl
  exact hk.forwards

/-- One step, with a client that has `P`. -/
theorem Forwards.step (h : Forwards P d) (w : World) {e : Event} (he : ∀ client, e = .authenticated client → P client) :
    Forwards P (d.step w e) := by
  cases e with
  | acceptClient =>
    unfold Impl.step acceptClient
    split_ifs
    · exact h
    · refine ⟨h.1, fun e he => ?_⟩
      rcases mem_append.mp he with he | he
      · exact h.2 e he
      · rw [mem_singleton.mp he]
        trivial
  | acceptAgent uid | dropped connection | threadEnded | awaited cookie | requestTerminate session =>
    exact h.of_eq rfl rfl
  | authenticated client =>
    unfold Impl.step
    dsimp only
    split_ifs
    · have hd : Forwards P { d with authenticating := d.authenticating.erase client.id } := h.of_eq rfl rfl
      exact hd.authenticated w (he client rfl)
    · exact h
  | launched launched => exact (h.kept.handleLaunched rfl).forwards
  | readUnclaimed index frames isOpen =>
    unfold Impl.step
    dsimp only
    split
    · exact h
    · next peer _ =>
      have hread := (h.kept.readUnclaimed w { peer with inbox := peer.inbox ++ frames } fun _ _ _ => rfl).forwards
      split_ifs
      · exact h.of_eq rfl rfl
      · exact hread.of_eq rfl rfl
      · exact hread.of_eq rfl rfl
  | readAgent session frames isOpen => exact (h.kept.readAgent (bystanders_all d) w session frames isOpen).forwards
  | tick => exact h.tick w
  | login account =>
    refine ⟨h.1, fun e he => ?_⟩
    rcases mem_append.mp he with he | he
    · exact h.2 e he
    · obtain ⟨cookie, -, rfl⟩ := map_eq_some_iff.mp (mem_toList.mp he)
      trivial
  | shutdown => exact h.shutdown w
  | close => exact Forwards.foldl (fun id h => h.endFound id) _ h

/-- A run, with clients that have `P`. -/
theorem Forwards.run : ∀ (es : List (World × Event)) {d : Impl}, Forwards P d →
    (∀ e ∈ es, ∀ client, e.2 = .authenticated client → P client) → Forwards P (d.run es)
  | [], _, h, _ => h
  | e :: es, _, h, hes =>
    Forwards.run es (h.step e.1 (hes e mem_cons_self)) fun e' he' => hes e' (mem_cons_of_mem _ he')

end

theorem start_forwards (P : Authenticated → Prop) (options : Options) (w : World)
    (table : List (StoredSession × Option ℕ)) : Forwards P (start options w table) := by
  have hfresh := start_fresh options w table
  refine ⟨fun c hc => ?_, fun e he => ?_⟩
  · obtain ⟨s, hs, hc⟩ := mem_clients.mp hc
    rw [(hfresh.live s hs).1, (hfresh.live s hs).2] at hc
    rcases hc with hc | hc <;> cases hc
  · rw [hfresh.log] at he
    cases he

/-- Every client of the run is posted by its thread. -/
def Posted (ntHash : Text → NtHash) (thread : Authenticated → Thread) (es : List (World × Event)) : Prop :=
  ∀ e ∈ es, ∀ client, e.2 = .authenticated client → (thread client).authenticate ntHash client.id = some client

/-- No agent gets a password that was not verified for the client it comes
with. -/
def OwnPasswords (ntHash : Text → NtHash) (thread : Authenticated → Thread) (log : List Entry) : Prop :=
  ∀ session id negotiation password peer elapsed holder,
    .sent session (.newConnection id negotiation password peer elapsed) holder ∈ log → password ≠ [] →
    ∃ w client, newConnectionOf w client = .newConnection id negotiation password peer elapsed ∧
      (thread client).Verified ntHash negotiation.identity password

/-- **A delegated password goes only to its own account**, in every run where
the last password that checked out on a connection was sent for the identity
that is reported there. -/
theorem run_ownPassword (ntHash : Text → NtHash) (thread : Authenticated → Thread) (options : Options) (w : World)
    (table : List (StoredSession × Option ℕ)) (es : List (World × Event)) (hes : Posted ntHash thread es)
    (hnames : ∀ e ∈ es, ∀ client, e.2 = .authenticated client → (thread client).NamesItself ntHash) :
    OwnPasswords ntHash thread ((start options w table).run es).log := by
  have hrun : Forwards (fun client => client.password ≠ [] →
      (thread client).Verified ntHash client.negotiation.identity client.password) ((start options w table).run es) :=
    (start_forwards _ options w table).run es fun e he client hc hp =>
      Thread.authenticate_verified (hes e he client hc) (hnames e he client hc) hp
  intro session id negotiation password peer elapsed holder hsent hp
  obtain ⟨w', client, hclient, heq⟩ := hrun.2 _ hsent
  refine ⟨w', client, heq, ?_⟩
  simp only [newConnectionOf, Message.newConnection.injEq] at heq
  obtain ⟨-, rfl, rfl, -⟩ := heq
  exact hclient hp

/-! ### A password of somebody else -/

variable (password : Text)

/-- The NT hash, of `password` and of no password. -/
def sampleHash : NtHash :=
  if password = text "password" then
    ⟨[0x88, 0x46, 0xf7, 0xea, 0xee, 0x8f, 0xb1, 0x17, 0xad, 0x06, 0xbd, 0xd8, 0x30, 0xb7, 0x58, 0x6c], rfl⟩
  else
    ⟨[0x31, 0xd6, 0xcf, 0xe0, 0xd1, 0x6a, 0xe9, 0x31, 0xb7, 0x3c, 0x59, 0xd7, 0xe0, 0xc0, 0x89, 0xc0], rfl⟩

def alice : Identity := ⟨text "alice", []⟩

def bob : Identity := ⟨text "bob", []⟩

/-- `alice` has the password of the store, `bob` has the well-known one. -/
def sampleStore : CredentialStore :=
  ⟨[{ user := alice.user, hash := sampleHash password }, { user := bob.user, hash := sampleHash (text "password") }]⟩

/-- A connection where `alice` logs in with NTLM, and a password is sent for
`user`. -/
def delegating (user : Identity) : Thread where
  store := sampleStore password
  arrivals := [
    { frame := (Privsep.encode (.verifyNtlmRequest alice.user alice.domain (.replicate 8 0) [])).getD []
      others := { sessionBaseKey := some (.replicate 16 1) } },
    { frame := (Privsep.encode (.verifyPasswordRequest user.user user.domain (text "password"))).getD [] },
    { frame := (Privsep.encode (.authenticated ⟨[], protocolHybrid, protocolHybrid, some alice⟩)).getD [] }]

/-- The client that comes of it. -/
def delegated : Authenticated where
  id := 1
  account := alice.user
  negotiation := ⟨[], protocolHybrid, protocolHybrid, some alice⟩
  password := text "password"

/-- The client comes, its session starts and the agent greets. -/
def handing : List (World × Event) :=
  calmly [.acceptClient, .authenticated delegated, .acceptAgent 0,
    .readUnclaimed 0 [.message (.hello protocolVersion Token.zero)] true]

theorem sent_delegated : .sent 1 (newConnectionOf {} delegated) none ∈
    ((start { noPam := true } {} []).run handing).log := by decide +kernel

theorem handing_authenticated {e : World × Event} (he : e ∈ handing) {client : Authenticated}
    (hc : e.2 = .authenticated client) : client = delegated := by
  simp only [handing, calmly, map_cons, map_nil, mem_cons, not_mem_nil, or_false] at he
  rcases he with rfl | rfl | rfl | rfl <;> cases hc
  rfl

theorem delegating_await (user : Identity)
    (h : (delegating password user).await sampleHash = some (⟨sampleStore password, text "password",
      [(user, text "password")]⟩, some delegated.negotiation)) {v : StoreVerifier} {n : Option Negotiation}
    (hv : (delegating password user).await sampleHash = some (v, n)) :
    v.accepted = [(user, text "password")] ∧ n = some delegated.negotiation := by
  rw [h] at hv
  cases hv
  exact ⟨rfl, rfl⟩

/-- `alice` sends her own password. -/
theorem own_password_delegated : OwnPasswords sampleHash (fun _ => delegating (text "password") alice)
      ((start { noPam := true } {} []).run handing).log ∧
    .sent 1 (newConnectionOf {} delegated) none ∈ ((start { noPam := true } {} []).run handing).log := by
  refine ⟨run_ownPassword _ _ _ _ _ _ (fun e he client hc => ?_) fun e he client hc v n hv last hlast => ?_,
    sent_delegated⟩
  · rw [handing_authenticated he hc]
    decide +kernel
  · obtain ⟨ha, hn⟩ := delegating_await _ _ (by decide +kernel) hv
    rw [ha] at hlast
    cases hlast
    cases hn
    rfl

/-- The network process sends the password of `bob`, and reports `alice`. -/
theorem password_of_another : ¬ ∀ (ntHash : Text → NtHash) (thread : Authenticated → Thread) (options : Options)
    (w : World) (table : List (StoredSession × Option ℕ)) (es : List (World × Event)), Posted ntHash thread es →
      OwnPasswords ntHash thread ((start options w table).run es).log := by
  intro h
  have hposted : Posted sampleHash (fun _ => delegating [] bob) handing := by
    intro e he client hc
    rw [handing_authenticated he hc]
    decide +kernel
  have hown := h sampleHash (fun _ => delegating [] bob) { noPam := true } {} [] handing hposted
  obtain ⟨w, client, heq, v, n, i, hv, hi, hm⟩ := hown 1 1 delegated.negotiation delegated.password [] 0 none
    sent_delegated (by decide)
  rw [(delegating_await _ _ (by decide +kernel) hv).1, mem_singleton] at hm
  cases hi
  cases hm

end Impl
end Daemon
end Farland
