/-
# No delegation without the whole proof

What the acceptor's log looks like when it has succeeded: the chosen mechanism
was established, the client's pubKeyAuth unwrapped to the binding of the
server's own key, our answer was queued, and the credentials came after that
and were accepted (`run_succeeded`). Each stage is a condition on the log that
stays when the log grows, so a handler only has to show the step it takes.

* `Sane`   : what holds of an acceptor in progress even when it is about to refuse
* `Ready`  : what the handlers rely on besides
* `Stage`  : how far the proof has come in each phase
-/
import Farland.Auth.Acceptor

namespace Farland
namespace Auth
namespace Credssp

open Handler List Event Trace

/-! ### Events -/

namespace Event

variable {C : Type}

/-- The security context that an event is about. -/
def context : Event C → Option C
  | .chose _ _ c => some c
  | .stepped c _ _ => some c
  | .verifiedMic c _ _ _ => some c
  | .gotMic c _ _ => some c
  | .reset c => some c
  | .wrapped c _ _ => some c
  | .unwrapped c _ _ => some c
  | _ => none

/-- A call of `wrap`, `unwrap`, `get_mic`, `verify_mic` or `reset_cipher_state`. -/
def usesKeys : Event C → Bool
  | .verifiedMic _ _ _ _ => true
  | .gotMic _ _ _ => true
  | .reset _ => true
  | .wrapped _ _ _ => true
  | .unwrapped _ _ _ => true
  | _ => false

def isStep : Event C → Bool
  | .stepped _ _ _ => true
  | _ => false

/-- A step that reports the context as complete. -/
def completes : Event C → Bool
  | .stepped _ _ (.ok s) => s.complete
  | _ => false

def request : Event C → Option TsRequest
  | .received r => some r
  | _ => none

/-- What an event adds to the bytes for the client. -/
def bytes : Event C → Bytes
  | .sent m => encodeTsRequest m
  | _ => []

theorem bytes_of_context {e : Event C} {c : C} (h : e.context = some c) : e.bytes = [] := by
  cases e <;> first | rfl | cases h

end Event

section Logs

variable {C : Type}

/-- The last clientNonce received. -/
def lastNonce (log : List (Event C)) : Option Nonce :=
  log.foldl (fun nonce e => (e.request.bind (·.clientNonce)) <|> nonce) none

theorem lastNonce_snoc (log : List (Event C)) (e : Event C) :
    lastNonce (log ++ [e]) = ((e.request.bind (·.clientNonce)) <|> lastNonce log) := by
  simp [lastNonce]

/-- The keys are used only after a complete step, and there is no step after it. -/
def Ordered (log : List (Event C)) : Prop := ∀ before e, before ++ [e] <+: log →
  (e.usesKeys = true → ∃ e' ∈ before, e'.completes = true) ∧ (e.isStep = true → ∀ e' ∈ before, e'.completes = false)

theorem flatMap_bytes_snoc {queue : Bytes} {log : List (Event C)} (h : queue = log.flatMap bytes) {e : Event C}
    (he : e.bytes = []) : queue = (log ++ [e]).flatMap bytes := by
  simp [h, he]

theorem ordered_nil : Ordered ([] : List (Event C)) := by
  intro before e h
  simp at h

variable {log : List (Event C)}

theorem Ordered.snoc (h : Ordered log) {e : Event C} (hk : e.usesKeys = true → ∃ e' ∈ log, e'.completes = true)
    (hs : e.isStep = true → ∀ e' ∈ log, e'.completes = false) : Ordered (log ++ [e]) := by
  intro before e' hpre
  rcases prefix_concat_iff.mp hpre with heq | hpre
  · obtain ⟨rfl, hlast⟩ := append_inj' heq rfl
    obtain rfl := singleton_injective hlast
    exact ⟨hk, hs⟩
  · exact h before e' hpre

/-- A step of the context has reported it complete. -/
def Established (c : C) (log : List (Event C)) : Prop :=
  ∃ before input token, before ++ [.stepped c input (.ok ⟨token, true⟩)] <+: log

variable {c : C} {log' : List (Event C)}

theorem Established.mono (h : Established c log) (hp : log <+: log') : Established c log' := by
  obtain ⟨before, input, token, hb⟩ := h
  exact ⟨before, input, token, hb.trans hp⟩

theorem Established.completes (h : Established c log) : ∃ e ∈ log, e.completes = true := by
  obtain ⟨before, input, token, hb⟩ := h
  exact ⟨.stepped c input (.ok ⟨token, true⟩), hb.subset (by simp), rfl⟩

variable {W : Type} (env : Provider C W) (cfg : AcceptorConfig C W)

/-- Behind that, a pubKeyAuth unwrapped to the binding of the server's key, which `answer` answers. -/
def Bound (v : ℕ) (c : C) (answer : Bytes) (log : List (Event C)) : Prop :=
  ∃ before pubKeyAuth plaintext, before ++ [.unwrapped c pubKeyAuth (.ok plaintext)] <+: log ∧ Established c before ∧
    Acceptor.binding env cfg (min v cfg.maxVersion) (lastNonce before) = some (plaintext, answer)

/-- Behind that, the answer was wrapped and queued. -/
def Answered (v : ℕ) (c : C) (log : List (Event C)) : Prop :=
  ∃ before message answer wrapped, before ++ [.sent message] <+: log ∧ Bound env cfg v c answer before ∧
    .wrapped c answer wrapped ∈ before ∧ message.pubKeyAuth = some wrapped

/-- Behind that, an authInfo unwrapped to well-formed password credentials. -/
def Delegated (v : ℕ) (c : C) (credentials : PasswordCredentials) (log : List (Event C)) : Prop :=
  ∃ before authInfo plaintext creds, before ++ [.unwrapped c authInfo (.ok plaintext)] <+: log ∧
    Answered env cfg v c before ∧ decodeTsCredentials plaintext = .ok (.password creds) ∧
    credentials = toPasswordCredentials creds

variable {env cfg} {v : ℕ}

theorem Bound.mono {answer : Bytes} (h : Bound env cfg v c answer log) (hp : log <+: log') :
    Bound env cfg v c answer log' := by
  obtain ⟨before, pubKeyAuth, plaintext, hb, h⟩ := h
  exact ⟨before, pubKeyAuth, plaintext, hb.trans hp, h⟩

theorem Bound.established {answer : Bytes} (h : Bound env cfg v c answer log) : Established c log := by
  obtain ⟨before, pubKeyAuth, plaintext, hb, he, -⟩ := h
  exact he.mono ((prefix_append _ _).trans hb)

theorem Answered.mono (h : Answered env cfg v c log) (hp : log <+: log') : Answered env cfg v c log' := by
  obtain ⟨before, message, answer, wrapped, hb, h⟩ := h
  exact ⟨before, message, answer, wrapped, hb.trans hp, h⟩

theorem Answered.established (h : Answered env cfg v c log) : Established c log := by
  obtain ⟨before, message, answer, wrapped, hb, hbound, -⟩ := h
  exact hbound.established.mono ((prefix_append _ _).trans hb)

theorem Delegated.mono {credentials : PasswordCredentials} (h : Delegated env cfg v c credentials log)
    (hp : log <+: log') : Delegated env cfg v c credentials log' := by
  obtain ⟨before, authInfo, plaintext, creds, hb, h⟩ := h
  exact ⟨before, authInfo, plaintext, creds, hb.trans hp, h⟩

end Logs

namespace Acceptor

variable {C W α : Type}

/-! ### The invariant -/

/-- What holds of an acceptor in progress, also when it refuses. -/
structure Sane (a : Acceptor C W) : Prop where
  inProgress : a.status = .inProgress
  ordered : Ordered a.log
  own : ∀ e ∈ a.log, ∀ c, e.context = some c → a.mech = some c
  unheld : a.credentials = none
  queued : a.handed ++ a.output = a.log.flatMap bytes

/-- The version of the client and its last nonce are known. -/
structure Ready (cfg : AcceptorConfig C W) (a : Acceptor C W) : Prop extends Sane a where
  nonce : a.nonce = lastNonce a.log
  least : minVersion ≤ a.peerVersion
  version : a.version = min a.peerVersion cfg.maxVersion
  versions : ∀ r, .received r ∈ a.log → r.version = a.peerVersion

/-- Before the first TSRequest. -/
structure Waiting (a : Acceptor C W) : Prop where
  inProgress : a.status = .inProgress
  nothing : a.log = []
  negotiating : a.phase = .negotiate
  nonce : a.nonce = none
  fresh : a.peerVersion = 0
  unheld : a.credentials = none
  queued : a.handed ++ a.output = a.log.flatMap bytes

/-- How far the proof has come. -/
def Stage (env : Provider C W) (cfg : AcceptorConfig C W) (a : Acceptor C W) : Prop :=
  match a.phase with
  | .negotiate => ∀ e ∈ a.log, e.completes = false
  | .pubKeyAuth c => a.mech = some c ∧ Established c a.log
  | .credentials c => a.mech = some c ∧ Answered env cfg a.peerVersion c a.log
  | .done => False

/-- What the handshake has shown when it succeeds. -/
structure Granted (env : Provider C W) (cfg : AcceptorConfig C W) (c : C) (v : ℕ) (credentials : PasswordCredentials)
    (a : Acceptor C W) : Prop where
  versions : minVersion ≤ v ∧ ∀ r, .received r ∈ a.log → r.version = v
  delegated : Delegated env cfg v c credentials a.log
  accepted : ∀ accept, cfg.acceptCredentials = some accept → ∃ before w,
    a.log = before ++ [.asked credentials (env.identity c w) (env.mechanism c w) true] ∧
      accept credentials (env.identity c w) (env.mechanism c w) w = (true, a.trace.world)
  identity : a.identity = env.identity c a.trace.world
  held : ∀ d, a.credentials = some d → d = credentials

/-- A handshake that has succeeded. -/
structure Succeeded (env : Provider C W) (cfg : AcceptorConfig C W) (a : Acceptor C W) : Prop where
  succeeded : a.status = .succeeded
  ordered : Ordered a.log
  own : ∀ e ∈ a.log, ∀ c, e.context = some c → a.mech = some c
  queued : a.handed ++ a.output = a.log.flatMap bytes
  granted : ∃ c v credentials, Granted env cfg c v credentials a

variable {env : Provider C W} {cfg : AcceptorConfig C W} {a : Acceptor C W} {c : C}

/-- The state after an event that is not a request. -/
theorem Ready.record (h : Ready cfg a) {w : W} {e : Event C} {output : Bytes} (hr : e.request = none)
    (hq : a.handed ++ output = (a.log ++ [e]).flatMap bytes)
    (hown : ∀ c, e.context = some c → a.mech = some c)
    (hk : e.usesKeys = true → ∃ e' ∈ a.log, e'.completes = true)
    (hs : e.isStep = true → ∀ e' ∈ a.log, e'.completes = false) :
    Ready cfg { a with trace := a.trace.record w e, output } where
  inProgress := h.inProgress
  ordered := h.ordered.snoc hk hs
  own := by
    intro e' he' c' hc'
    rcases mem_append.mp he' with he' | he'
    · exact h.own e' he' c' hc'
    · cases mem_singleton.mp he'
      exact hown c' hc'
  unheld := h.unheld
  queued := hq
  nonce := by
    change a.nonce = lastNonce (a.log ++ [e])
    rw [lastNonce_snoc, hr, h.nonce]
    rfl
  least := h.least
  version := h.version
  versions := by
    intro r hmem
    rcases mem_append.mp hmem with hmem | hmem
    · exact h.versions r hmem
    · cases mem_singleton.mp hmem
      cases hr

/-- After a call that uses the keys of the established mechanism. -/
theorem Ready.use (h : Ready cfg a) (hm : a.mech = some c) (he : Established c a.log) {w : W} {e : Event C}
    (hc : e.context = some c) (hr : e.request = none) (hs : e.isStep = false) :
    Ready cfg { a with trace := a.trace.record w e } :=
  h.record hr (flatMap_bytes_snoc h.queued (bytes_of_context hc)) (fun c' hc' => by rw [hm, ← hc', hc])
    (fun _ => he.completes) (by simp [hs])

/-- After a TSRequest was queued. -/
theorem Ready.send (h : Ready cfg a) (m : TsRequest) : Ready cfg (a.send m) := by
  have hsent : Ready cfg { a with
      trace := a.trace.record a.trace.world (.sent { m with version := a.version })
      output := a.output ++ encodeTsRequest { m with version := a.version } } :=
    h.record rfl (by simp [← append_assoc, h.queued, bytes]) (by simp [context]) (by simp [usesKeys])
      (by simp [isStep])
  exact { hsent with }

/-! ### The public keys -/

theorem answerPubKeyAuth_spec (h : Ready cfg a) (hm : a.mech = some c) (he : Established c a.log) (p : Bytes)
    (t : Option Bytes) : wp (answerPubKeyAuth env cfg c p t)
      (fun _ a' => Ready cfg a' ∧ Stage env cfg a') (fun _ => Sane) a := by
  unfold answerPubKeyAuth
  simp only [wp_bind]
  have h1 : Ready cfg { a with trace := (unwrap env c p a.trace).2 } := h.use hm he rfl rfl rfl
  refine wp_orRefuse (fun plaintext hplain => ?_) (fun _ _ => h1.toSane)
  rw [wp_get]
  rcases hb : binding env cfg a.version a.nonce with _ | ⟨expected, answer⟩
  · exact h1.toSane
  · simp only [wp_bind, wp_refuseIf]
    refine of_ite (fun _ => h1.toSane) fun hne => ?_
    push Not at hne
    subst hne
    have hbound : Bound env cfg a.peerVersion c answer (a.log ++ [.unwrapped c p (.ok plaintext)]) := by
      refine ⟨a.log, p, plaintext, prefix_rfl, he, ?_⟩
      rw [← h.version, ← h.nonce, hb]
    have hlog : (unwrap env c p a.trace).2.log = a.log ++ [.unwrapped c p (.ok plaintext)] := by
      rw [← hplain]
      rfl
    have h2 := h1.use (e := .wrapped c answer (wrap env c answer (unwrap env c p a.trace).2).1)
      (w := (wrap env c answer (unwrap env c p a.trace).2).2.world) hm
      (he.mono (prefix_append _ _)) rfl rfl rfl
    have h3 : Ready cfg { a with
        trace := (wrap env c answer (unwrap env c p a.trace).2).2, phase := .credentials c } := { h2 with }
    refine ⟨h3.send _, hm, _, _, answer, (wrap env c answer (unwrap env c p a.trace).2).1,
      prefix_rfl, hbound.mono ?_, ?_, rfl⟩
    · rw [← hlog]
      exact prefix_append _ _
    · simp [wrap]

/-- An established mechanism. -/
structure Open (cfg : AcceptorConfig C W) (c : C) (a : Acceptor C W) : Prop extends Ready cfg a where
  mech : a.mech = some c
  established : Established c a.log

/-- A call that uses the keys of `c`. -/
def Uses (c : C) (f : Trace C W → α × Trace C W) : Prop :=
  ∀ t, ∃ w e, (f t).2 = t.record w e ∧ e.context = some c ∧ e.request = none ∧ e.isStep = false

theorem getMic_uses (c : C) (m : Bytes) : Uses c (getMic env c m) := fun _ => ⟨_, _, rfl, rfl, rfl, rfl⟩

theorem verifyMic_uses (c : C) (m mic : Bytes) : Uses c (Trace.verifyMic env c m mic) :=
  fun _ => ⟨_, _, rfl, rfl, rfl, rfl⟩

theorem reset_uses (c : C) : Uses c (resetCipherState env c) := fun _ => ⟨_, _, rfl, rfl, rfl, rfl⟩

variable {R : String → Acceptor C W → Prop}

theorem Open.call (h : Open cfg c a) {f : Trace C W → α × Trace C W} (hf : Uses c f) :
    wp (call f) (fun _ => Open cfg c) R a := by
  obtain ⟨w, e, ht, hc, hr, hs⟩ := hf a.trace
  change Open cfg c { a with trace := (f a.trace).2 }
  rw [ht]
  exact ⟨h.toReady.use h.mech h.established hc hr hs, h.mech, h.established.mono (prefix_append _ _)⟩

theorem verifyMic_spec (h : Open cfg c a) (mic : Bytes) :
    wp (verifyMic env c mic) (fun _ => Open cfg c) (fun _ => Sane) a := by
  unfold verifyMic
  simp only [wp_bind, wp_get]
  refine wp_mono (h.call (verifyMic_uses c _ mic)) (fun answer a1 h1 => ?_) (fun _ _ h1 => h1)
  refine wp_orRefuse (fun _ _ => ?_) (fun _ _ => h1.toSane)
  exact { h1 with }

theorem takeLateMic_spec (h : Open cfg c a) (request : TsRequest) :
    wp (takeLateMic env c request) (fun _ => Open cfg c) (fun _ => Sane) a := by
  unfold takeLateMic
  by_cases htokens : request.negoTokens = []
  · rw [if_pos htokens]
    exact h
  · rw [if_neg htokens]
    simp only [wp_bind, wp_get, wp_refuseIf]
    refine of_ite (fun _ => h.toSane) fun _ => ?_
    refine wp_orRefuse (fun token _ => ?_) (fun _ _ => h.toSane)
    rcases token with init | resp
    · exact h.toSane
    · simp only [wp_bind, wp_refuseIf]
      refine of_ite (fun _ => h.toSane) fun _ => ?_
      rcases resp.mechListMic with _ | mic
      · exact h
      · by_cases hv : a.clientMicVerified = true
        · simp only [if_pos hv]
          exact h
        · simp only [if_neg hv, wp_bind]
          exact wp_mono (verifyMic_spec h mic) (fun _ _ h1 => h1.call (reset_uses c)) (fun _ _ h1 => h1)

theorem handlePubKeyAuth_spec (h : Open cfg c a) (request : TsRequest) : wp (handlePubKeyAuth env cfg c request)
    (fun _ a' => Ready cfg a' ∧ Stage env cfg a') (fun _ => Sane) a := by
  unfold handlePubKeyAuth
  simp only [wp_bind, wp_refuseIf]
  refine of_ite (fun _ => h.toSane) fun _ => ?_
  refine wp_mono (takeLateMic_spec h request) (fun _ a1 h1 => ?_) (fun _ _ h1 => h1)
  rw [wp_get]
  refine of_ite (fun _ => h1.toSane) fun _ => ?_
  rcases request.pubKeyAuth with _ | p
  · exact h1.toSane
  · exact answerPubKeyAuth_spec h1.toReady h1.mech h1.established p none

/-! ### The credentials -/

/-- What follows once the credentials are accepted. -/
theorem Ready.succeed (h : Ready cfg a) {credentials : PasswordCredentials}
    (hd : Delegated env cfg a.peerVersion c credentials a.log)
    (ha : ∀ accept, cfg.acceptCredentials = some accept → ∃ before w,
      a.log = before ++ [.asked credentials (env.identity c w) (env.mechanism c w) true] ∧
        accept credentials (env.identity c w) (env.mechanism c w) w = (true, a.trace.world)) :
    Succeeded env cfg { a with
      credentials := some credentials, identity := env.identity c a.trace.world, phase := .done,
        status := .succeeded } where
  succeeded := rfl
  ordered := h.ordered
  own := h.own
  queued := h.queued
  granted := by
    refine ⟨c, a.peerVersion, credentials, ⟨h.least, h.versions⟩, hd, ha, rfl, ?_⟩
    intro d hd'
    exact (Option.some.inj hd').symm

/-- The last event says what `accept_credentials` was asked and answered. -/
def Accepted (env : Provider C W) (cfg : AcceptorConfig C W) (c : C) (credentials : PasswordCredentials)
    (a : Acceptor C W) : Prop := ∀ accept, cfg.acceptCredentials = some accept → ∃ before w,
  a.log = before ++ [.asked credentials (env.identity c w) (env.mechanism c w) true] ∧
    accept credentials (env.identity c w) (env.mechanism c w) w = (true, a.trace.world)

theorem accepted_spec (h : Ready cfg a) (credentials : PasswordCredentials) :
    wp (accepted env cfg c credentials)
      (fun answer a' => Ready cfg a' ∧ a'.peerVersion = a.peerVersion ∧ a.log <+: a'.log ∧
        (answer = true → Accepted env cfg c credentials a')) R a := by
  unfold accepted Accepted
  rcases hcfg : cfg.acceptCredentials with _ | accept
  · exact ⟨h, rfl, prefix_rfl, by simp⟩
  · simp only [call, wp_act]
    rcases haccept : accept credentials (env.identity c a.trace.world)
      (env.mechanism c a.trace.world) a.trace.world with
      ⟨answer, w⟩
    refine ⟨h.record rfl (flatMap_bytes_snoc h.queued rfl) (by simp [context]) (by simp [usesKeys])
      (by simp [isStep]), trivial, prefix_append _ _, ?_⟩
    intro htrue accept' hcfg'
    cases hcfg'
    subst htrue
    exact ⟨a.log, a.trace.world, rfl, haccept⟩

theorem handleCredentials_spec (h : Ready cfg a) (hm : a.mech = some c)
    (ha : Answered env cfg a.peerVersion c a.log) (request : TsRequest) : wp (handleCredentials env cfg c request)
      (fun _ => Succeeded env cfg) (fun _ => Sane) a := by
  unfold handleCredentials
  rcases request.authInfo with _ | authInfo
  · exact h.toSane
  · simp only [wp_bind]
    have h1 : Ready cfg { a with trace := (unwrap env c authInfo a.trace).2 } := h.use hm ha.established rfl rfl rfl
    refine wp_orRefuse (fun plaintext hplain => ?_) (fun _ _ => h1.toSane)
    refine wp_orRefuse (fun ts hts => ?_) (fun _ _ => h1.toSane)
    rcases ts with creds | der | der
    · have hd : Delegated env cfg a.peerVersion c (toPasswordCredentials creds)
          (a.log ++ [.unwrapped c authInfo (.ok plaintext)]) :=
        ⟨a.log, authInfo, plaintext, creds, prefix_rfl, ha, hts, rfl⟩
      rw [← hplain] at hd
      simp only [wp_bind, wp_refuseIf]
      refine wp_mono (accepted_spec h1 _) (fun answer a2 h2 => ?_) (fun _ _ h2 => h2)
      obtain ⟨h2, hv, hpre, hanswer⟩ := h2
      refine of_ite (fun _ => h2.toSane) fun hno => ?_
      refine h2.succeed ?_ (hanswer (by simpa using hno))
      rw [hv]
      exact hd.mono hpre
    · exact h1.toSane
    · exact h1.toSane

/-! ### The negotiation -/

theorem checkMic_spec (h : Open cfg c a) (output : Bytes) (mic : Option Bytes) :
    wp (checkMic env c output mic) (fun _ => Open cfg c) (fun _ => Sane) a := by
  unfold checkMic
  simp only [wp_bind, wp_get]
  rcases mic with _ | mic
  · simp only [wp_refuseIf]
    exact of_ite (fun _ => h.toSane) fun _ => h
  · exact verifyMic_spec h mic

theorem finalToken_spec (h : Open cfg c a) (output : Bytes) (mic : Option Bytes) (reply : Spnego.NegTokenResp) :
    wp (finalToken env c output mic reply) (fun _ => Open cfg c) (fun _ => Sane) a := by
  unfold finalToken
  simp only [wp_bind, wp_get]
  by_cases hspnego : a.spnego = true
  · simp only [if_pos hspnego, wp_map]
    unfold finalResp ownMic restart
    simp only [wp_bind, wp_get]
    refine wp_mono (checkMic_spec h output mic) (fun _ a1 h1 => ?_) (fun _ _ h1 => h1)
    have hown : wp (if a1.micRequired = true ∨ mic ≠ none then some <$> call (getMic env c a1.mechTypesDer)
        else (pure reply.mechListMic : Outcome C W (Option Bytes)))
        (fun _ => Open cfg c) (fun _ => Sane) a1 := by
      by_cases hmic : a1.micRequired = true ∨ mic ≠ none
      · rw [if_pos hmic, wp_map]
        exact h1.call (getMic_uses c _)
      · rw [if_neg hmic]
        exact h1
    refine wp_mono hown (fun own a2 h2 => ?_) (fun _ _ h2 => h2)
    by_cases hreset : own ≠ none ∨ a2.clientMicVerified = true
    · rw [if_pos hreset]
      exact wp_mono (h2.call (reset_uses c)) (fun _ _ h3 => h3) (fun _ _ h3 => h3)
    · rw [if_neg hreset]
      exact h2
  · simp only [if_neg hspnego]
    exact h

theorem finishNegotiation_spec (h : Open cfg c a) (request : TsRequest) (output : Bytes) (mic : Option Bytes)
    (reply : Spnego.NegTokenResp) : wp (finishNegotiation env cfg c request output mic reply)
      (fun _ a' => Ready cfg a' ∧ Stage env cfg a') (fun _ => Sane) a := by
  unfold finishNegotiation
  simp only [wp_bind]
  refine wp_mono (finalToken_spec h output mic reply) (fun negoToken a1 h1 => ?_) (fun _ _ h1 => h1)
  have h2 : Open cfg c { a1 with phase := .pubKeyAuth c } := { h1 with }
  rcases request.pubKeyAuth with _ | p
  · rcases negoToken with _ | token
    · exact ⟨h2.toReady, h2.mech, h2.established⟩
    · exact ⟨h2.toReady.send _, h2.mech, h2.established.mono (prefix_append _ _)⟩
  · exact answerPubKeyAuth_spec h2.toReady h2.mech h2.established p negoToken

variable (env) in
/-- A step of the chosen mechanism, while it is not complete. -/
theorem Ready.step (h : Ready cfg a) (hm : a.mech = some c) (hs : ∀ e ∈ a.log, e.completes = false) (input : Bytes) :
    Ready cfg { a with trace := (Trace.step env c input a.trace).2 } :=
  h.record rfl (flatMap_bytes_snoc h.queued rfl) (fun c' hc' => by rw [hm]; exact hc') (by simp [usesKeys]) (fun _ => hs)

variable (env) in
/-- The step is taken; an established mechanism goes on to the public keys. -/
theorem stepped_spec (h : Ready cfg a) (hm : a.mech = some c) (hp : a.phase = .negotiate)
    (hs : ∀ e ∈ a.log, e.completes = false) (input : Bytes) {done next : Step → Outcome C W Unit}
    (hdone : ∀ step a', Open cfg c a' → wp (done step) (fun _ a' => Ready cfg a' ∧ Stage env cfg a') (fun _ => Sane) a')
    (hnext : ∀ step a', Ready cfg a' → Stage env cfg a' → a'.phase = .negotiate → a'.mech = some c →
      wp (next step) (fun _ a' => Ready cfg a' ∧ Stage env cfg a') (fun _ => Sane) a') :
    wp (do
      let answer ← call (Trace.step env c input)
      let step ← orReject "security mechanism rejected the client" answer
      if step.complete then done step else next step)
      (fun _ a' => Ready cfg a' ∧ Stage env cfg a') (fun _ => Sane) a := by
  have h1 := h.step env hm hs input
  simp only [wp_bind]
  refine wp_orRefuse (fun step hstep => ?_) (fun _ _ => h1.toSane)
  have hlog : (Trace.step env c input a.trace).2.log = a.log ++ [.stepped c input (.ok step)] := by
    rw [← hstep]
    rfl
  by_cases hc : step.complete = true
  · rw [if_pos hc]
    refine hdone step _ ⟨h1, hm, a.log, input, step.token, ?_⟩
    rw [← hc]
    exact hlog ▸ prefix_rfl
  · rw [if_neg hc]
    refine hnext step _ h1 ?_ hp hm
    unfold Stage
    simp only [hp]
    intro e he
    change e ∈ (Trace.step env c input a.trace).2.log at he
    rw [hlog] at he
    rcases mem_append.mp he with he | he
    · exact hs e he
    · cases mem_singleton.mp he
      simpa [completes] using hc

/-- Choosing a mechanism is one event, failing to is none. -/
theorem choose_log (cfg : AcceptorConfig C W) : ∀ (oids : List Oid) (i : ℕ) (t : Trace C W),
    match choose cfg i oids t with
    | (some (c, j, oid), t') => t'.log = t.log ++ [.chose j oid c] ∧ i ≤ j ∧ oids[j - i]? = some oid
    | (none, t') => t'.log = t.log
  | [], _, _ => rfl
  | oid :: rest, i, t => by
    unfold choose
    rcases hmake : cfg.makeMechanism oid t.world with ⟨_ | c, w⟩
    · have ih := choose_log cfg rest (i + 1) { t with world := w }
      rcases hrest : choose cfg (i + 1) rest { t with world := w } with ⟨_ | ⟨c, j, oid'⟩, t'⟩
      · rw [hrest] at ih
        simpa only [hrest] using ih
      · rw [hrest] at ih
        obtain ⟨hlog, hle, hget⟩ := ih
        simp only [hrest]
        refine ⟨hlog, by omega, ?_⟩
        rw [show j - i = j - (i + 1) + 1 by omega, getElem?_cons_succ]
        exact hget
    · simp only [Nat.sub_self, getElem?_cons_zero, Nat.le_refl, and_self, and_true]
      rfl

/-- The mechanism that was chosen; nothing happened to another one. -/
theorem Ready.choose (h : Ready cfg a) (hm : a.mech = none) {t : Trace C W} {i : ℕ} {oid : Oid}
    (ht : t.log = a.log ++ [.chose i oid c]) : Ready cfg { a with trace := t, mech := some c } := by
  have hnone : ∀ e ∈ a.log, e.context = none := by
    intro e he
    rcases hc : e.context with _ | c'
    · rfl
    · rw [h.own e he c' hc] at hm
      cases hm
  have hlog : ({ a with trace := t, mech := some c } : Acceptor C W).log = a.log ++ [.chose i oid c] := ht
  refine ⟨⟨h.inProgress, ?_, ?_, h.unheld, ?_⟩, ?_, h.least, h.version, ?_⟩
  · rw [hlog]
    exact h.ordered.snoc (by simp [usesKeys]) (by simp [isStep])
  · rw [hlog]
    intro e he c' hc'
    rcases mem_append.mp he with he | he
    · rw [hnone e he] at hc'
      cases hc'
    · cases mem_singleton.mp he
      exact hc'
  · rw [hlog]
    exact flatMap_bytes_snoc h.queued rfl
  · rw [hlog, lastNonce_snoc, ← h.nonce]
    rfl
  · rw [hlog]
    intro r hr
    exact h.versions r (by simpa using hr)

theorem choose_noncomplete {log : List (Event C)} (hs : ∀ e ∈ log, e.completes = false) (i : ℕ) (oid : Oid) (c : C) :
    ∀ e ∈ log ++ [.chose i oid c], e.completes = false := by
  intro e he
  rcases mem_append.mp he with he | he
  · exact hs e he
  · cases mem_singleton.mp he
    rfl

theorem Stage.snoc (h : Stage env cfg a) {b : Acceptor C W} {e : Event C} (hlog : b.log = a.log ++ [e])
    (he : e.completes = false) (hp : b.phase = a.phase) (hm : b.mech = a.mech) (hv : b.peerVersion = a.peerVersion) :
    Stage env cfg b := by
  unfold Stage at h ⊢
  rw [hlog, hp, hm, hv]
  rcases hphase : a.phase with _ | c | c | _
  · simp only [hphase] at h
    intro e' he'
    rcases mem_append.mp he' with he' | he'
    · exact h e' he'
    · exact mem_singleton.mp he' ▸ he
  · simp only [hphase] at h
    exact ⟨h.1, h.2.mono (prefix_append _ _)⟩
  · simp only [hphase] at h
    exact ⟨h.1, h.2.mono (prefix_append _ _)⟩
  · simp only [hphase] at h

theorem Stage.send (h : Stage env cfg a) (m : TsRequest) : Stage env cfg (a.send m) :=
  h.snoc rfl rfl rfl rfl rfl

theorem optimistic_spec (h : Ready cfg a) (hm : a.mech = some c) (hp : a.phase = .negotiate)
    (hs : ∀ e ∈ a.log, e.completes = false) (init : Spnego.NegTokenInit) (request : TsRequest)
    (reply : Spnego.NegTokenResp) : wp (optimistic env cfg c init request reply)
      (fun _ a' => Ready cfg a' ∧ Stage env cfg a') (fun _ => Sane) a := by
  unfold optimistic
  rcases init.mechToken with _ | token
  · have hstage : Stage env cfg a := by
      unfold Stage
      rw [hp]
      exact hs
    exact ⟨h.send _, hstage.send _⟩
  · exact stepped_spec env h hm hp hs token (fun step a' h' => finishNegotiation_spec h' request step.token _ reply)
      (fun _ _ h' hs' _ _ => ⟨h'.send _, hs'.send _⟩)

theorem startSpnego_spec (h : Ready cfg a) (hm : a.mech = none) (hp : a.phase = .negotiate)
    (hs : ∀ e ∈ a.log, e.completes = false) (init : Spnego.NegTokenInit) (request : TsRequest) :
    wp (startSpnego env cfg init request) (fun _ a' => Ready cfg a' ∧ Stage env cfg a') (fun _ => Sane) a := by
  unfold startSpnego
  simp only [wp_bind, wp_update, call, wp_act]
  have hchoose := choose_log cfg init.mechTypes 0 a.trace
  rcases hc : choose cfg 0 init.mechTypes a.trace with ⟨_ | ⟨c, i, oid⟩, t⟩
  · rw [hc] at hchoose
    exact ⟨h.inProgress, by simpa [log, hchoose] using h.ordered, by simpa [log, hchoose] using h.own, h.unheld,
      by simpa [log, hchoose] using h.queued⟩
  · rw [hc] at hchoose
    obtain ⟨hlog, -, -⟩ := hchoose
    have h1 : Ready cfg { a with mechTypesDer := init.mechTypesDer, trace := t, mech := some c } :=
      { h.choose hm hlog with }
    have hs1 : ∀ e ∈ t.log, e.completes = false := hlog ▸ choose_noncomplete hs i oid c
    by_cases hi : i ≠ 0
    · simp only [if_pos hi]
      have h2 : Ready cfg { a with
          mechTypesDer := init.mechTypesDer, trace := t, mech := some c, micRequired := true } := { h1 with }
      refine ⟨h2.send _, Stage.send ?_ _⟩
      unfold Stage
      simp only [hp]
      exact hs1
    · simp only [if_neg hi]
      exact optimistic_spec h1 rfl hp hs1 init request _

theorem negotiate_spec (h : Ready cfg a) (hm : a.mech = some c) (hp : a.phase = .negotiate)
    (hs : ∀ e ∈ a.log, e.completes = false) (token : Bytes) (request : TsRequest) :
    wp (negotiate env cfg c token request) (fun _ a' => Ready cfg a' ∧ Stage env cfg a') (fun _ => Sane) a := by
  have hsend : ∀ (step : Step) (a' : Acceptor C W), Ready cfg a' → Stage env cfg a' → a'.phase = .negotiate →
      a'.mech = some c → wp (sendToken step) (fun _ a' => Ready cfg a' ∧ Stage env cfg a') (fun _ => Sane) a' := by
    intro step a' h' hs' _ _
    unfold sendToken
    exact ⟨h'.send _, hs'.send _⟩
  unfold negotiate mechInput
  simp only [wp_bind, wp_get]
  by_cases hspnego : a.spnego = true
  · simp only [if_pos hspnego, wp_bind]
    refine wp_orRefuse (fun next _ => ?_) (fun _ _ => h.toSane)
    rcases next with init | resp
    · exact h.toSane
    · simp only [wp_bind, wp_refuseIf]
      refine of_ite (fun _ => h.toSane) fun _ => ?_
      rcases resp.responseToken with _ | input
      · exact h.toSane
      · have hstep := stepped_spec env h hm hp hs input
          (fun step a' h' => finishNegotiation_spec h' request step.token resp.mechListMic {}) hsend
        simpa only [wp_bind, wp_pure] using hstep
  · simp only [if_neg hspnego, wp_pure]
    have hstep := stepped_spec env h hm hp hs token
      (fun step a' h' => finishNegotiation_spec h' request step.token none {}) hsend
    simpa only [wp_bind] using hstep

theorem firstToken_spec (h : Ready cfg a) (hm : a.mech = none) (hp : a.phase = .negotiate)
    (hs : ∀ e ∈ a.log, e.completes = false) (token : Bytes) (request : TsRequest) :
    wp (firstToken env cfg token request) (fun _ a' => Ready cfg a' ∧ Stage env cfg a') (fun _ => Sane) a := by
  unfold firstToken
  by_cases hraw : Spnego.isRawNtlm token = false
  · rw [if_pos hraw, wp_bind]
    refine wp_orRefuse (fun decoded _ => ?_) (fun _ _ => h.toSane)
    rcases decoded with init | resp
    · have h1 : Ready cfg { a with spnego := true } := { h with }
      exact startSpnego_spec h1 hm hp hs init request
    · exact h.toSane
  · rw [if_neg hraw]
    simp only [wp_bind, call, wp_act]
    have hchoose := choose_log cfg [Spnego.ntlmOid] 0 a.trace
    rcases hc : choose cfg 0 [Spnego.ntlmOid] a.trace with ⟨_ | ⟨c, i, oid⟩, t⟩
    · rw [hc] at hchoose
      exact ⟨h.inProgress, by simpa [log, hchoose] using h.ordered, by simpa [log, hchoose] using h.own, h.unheld,
      by simpa [log, hchoose] using h.queued⟩
    · rw [hc] at hchoose
      obtain ⟨hlog, -, -⟩ := hchoose
      have hs1 : ∀ e ∈ t.log, e.completes = false := hlog ▸ choose_noncomplete hs i oid c
      exact negotiate_spec (h.choose hm hlog) rfl hp hs1 token request

theorem handleNegotiate_spec (h : Ready cfg a) (hp : a.phase = .negotiate) (hs : ∀ e ∈ a.log, e.completes = false)
    (request : TsRequest) : wp (handleNegotiate env cfg request)
      (fun _ a' => Ready cfg a' ∧ Stage env cfg a') (fun _ => Sane) a := by
  unfold handleNegotiate
  simp only [wp_bind, wp_refuseIf, wp_get]
  refine of_ite (fun _ => h.toSane) fun _ => ?_
  refine of_ite (fun _ => h.toSane) fun _ => ?_
  rcases hm : a.mech with _ | c
  · exact firstToken_spec h hm hp hs _ request
  · exact negotiate_spec h hm hp hs _ request

/-! ### A TSRequest -/

/-- What is known of a request that has come in. -/
theorem Ready.receive (h : Ready cfg a) (request : TsRequest) (hv : request.version = a.peerVersion) :
    Ready cfg { a with trace := a.trace.note (.received request), nonce := request.clientNonce <|> a.nonce } where
  inProgress := h.inProgress
  ordered := h.ordered.snoc (by simp [usesKeys]) (by simp [isStep])
  own := by
    intro e he c hc
    rcases mem_append.mp he with he | he
    · exact h.own e he c hc
    · cases mem_singleton.mp he
      cases hc
  unheld := h.unheld
  queued := flatMap_bytes_snoc h.queued rfl
  nonce := by
    change (request.clientNonce <|> a.nonce) = lastNonce (a.log ++ [.received request])
    rw [lastNonce_snoc, h.nonce]
    rfl
  least := h.least
  version := h.version
  versions := by
    intro r hr
    rcases mem_append.mp hr with hr | hr
    · exact h.versions r hr
    · cases mem_singleton.mp hr
      exact hv

/-- The first request decides the version. -/
theorem Waiting.receive (h : Waiting a) (request : TsRequest) (hv : minVersion ≤ request.version) :
    Ready cfg { a with
      trace := a.trace.note (.received request), nonce := request.clientNonce <|> a.nonce
      peerVersion := request.version, version := min request.version cfg.maxVersion } where
  inProgress := h.inProgress
  ordered := by
    change Ordered (a.log ++ [.received request])
    rw [h.nothing]
    exact ordered_nil.snoc (by simp [usesKeys]) (by simp)
  own := by
    change ∀ e ∈ a.log ++ [.received request], _
    rw [h.nothing]
    simp [context]
  unheld := h.unheld
  queued := flatMap_bytes_snoc h.queued rfl
  nonce := by
    change (request.clientNonce <|> a.nonce) = lastNonce (a.log ++ [.received request])
    rw [h.nothing, h.nonce]
    rfl
  least := hv
  version := rfl
  versions := by
    change ∀ r, .received r ∈ a.log ++ [.received request] → _
    rw [h.nothing]
    simp

theorem Stage.receive (h : Stage env cfg a) (request : TsRequest) (nonce : Option Nonce) :
    Stage env cfg { a with trace := a.trace.note (.received request), nonce := nonce } :=
  h.snoc rfl rfl rfl rfl rfl

/-- An acceptor in progress. -/
def InProgress (env : Provider C W) (cfg : AcceptorConfig C W) (a : Acceptor C W) : Prop :=
  Waiting a ∨ (Ready cfg a ∧ Stage env cfg a)

theorem InProgress.note (h : InProgress env cfg a) (request : TsRequest) :
    Sane { a with trace := a.trace.note (.received request) } := by
  rcases h with h | ⟨h, -⟩
  · refine ⟨h.inProgress, ?_, ?_, h.unheld, flatMap_bytes_snoc h.queued rfl⟩
    · change Ordered (a.log ++ [.received request])
      rw [h.nothing]
      exact ordered_nil.snoc (by simp [usesKeys]) (by simp)
    · change ∀ e ∈ a.log ++ [.received request], _
      rw [h.nothing]
      simp [context]
  · refine ⟨h.inProgress, h.ordered.snoc (by simp [usesKeys]) (by simp [isStep]), ?_, h.unheld,
      flatMap_bytes_snoc h.queued rfl⟩
    intro e he c hc
    rcases mem_append.mp he with he | he
    · exact h.own e he c hc
    · cases mem_singleton.mp he
      cases hc

theorem agreeVersion_spec (h : InProgress env cfg a) (request : TsRequest) :
    wp (agreeVersion cfg request) (fun _ a' => Ready cfg { a' with nonce := request.clientNonce <|> a'.nonce } ∧
        Stage env cfg { a' with nonce := request.clientNonce <|> a'.nonce }) (fun _ => Sane)
      { a with trace := a.trace.note (.received request) } := by
  have hsane := h.note request
  unfold agreeVersion
  rw [wp_bind, wp_get]
  rcases h with h | ⟨h, hs⟩
  · simp only [h.fresh, if_true, wp_bind, wp_refuseIf]
    refine of_ite (fun _ => ?_) fun hv => ?_
    · simpa only [h.fresh] using hsane
    · refine ⟨h.receive request (by omega), ?_⟩
      unfold Stage
      simp only [h.negotiating]
      change ∀ e ∈ a.log ++ [.received request], _
      rw [h.nothing]
      simp [completes]
  · have hv0 : a.peerVersion ≠ 0 := by
      have := h.least
      unfold minVersion at this
      omega
    simp only [if_neg hv0, wp_refuseIf]
    exact of_ite (fun _ => hsane) fun hv => ⟨h.receive request (by simpa using hv), hs.receive request _⟩

theorem dispatch_spec (h : Ready cfg a) (hs : Stage env cfg a) (request : TsRequest) : wp (dispatch env cfg request)
    (fun _ a' => (Ready cfg a' ∧ Stage env cfg a') ∨ Succeeded env cfg a') (fun _ => Sane) a := by
  unfold dispatch
  rw [wp_bind, wp_get]
  unfold Stage at hs
  rcases hp : a.phase with _ | c | c | _
  · rw [hp] at hs
    exact wp_mono (handleNegotiate_spec h hp hs request) (fun _ _ h2 => .inl h2) (fun _ _ h2 => h2)
  · rw [hp] at hs
    exact wp_mono (handlePubKeyAuth_spec ⟨h, hs.1, hs.2⟩ request) (fun _ _ h2 => .inl h2) (fun _ _ h2 => h2)
  · rw [hp] at hs
    exact wp_mono (handleCredentials_spec h hs.1 hs.2 request) (fun _ _ h2 => .inr h2) (fun _ _ h2 => h2)
  · rw [hp] at hs
    exact hs.elim

theorem handle_spec (h : InProgress env cfg a) (request : TsRequest) : wp (handle env cfg request)
    (fun _ a' => (Ready cfg a' ∧ Stage env cfg a') ∨ Succeeded env cfg a') (fun _ => Sane) a := by
  unfold handle
  simp only [wp_bind, wp_update]
  refine wp_mono (agreeVersion_spec h request) (fun _ a1 h1 => ?_) (fun _ _ h1 => h1)
  obtain ⟨h1, hs1⟩ := h1
  rcases request.errorCode with _ | code
  · exact dispatch_spec h1 hs1 request
  · exact { h1.toSane with }

/-! ### Runs -/

/-- What holds of an acceptor at any time. -/
structure Sound (env : Provider C W) (cfg : AcceptorConfig C W) (a : Acceptor C W) : Prop where
  ordered : Ordered a.log
  own : ∀ e ∈ a.log, ∀ c, e.context = some c → a.mech = some c
  queued : a.handed ++ a.output = a.log.flatMap bytes
  held : a.credentials ≠ none → a.status = .succeeded
  progress : a.status = .inProgress → InProgress env cfg a
  succeeded : a.status = .succeeded → Succeeded env cfg a

theorem InProgress.sane (h : InProgress env cfg a) : Sane a := by
  rcases h with h | ⟨h, -⟩
  · exact ⟨h.inProgress, h.nothing ▸ ordered_nil, by simp [h.nothing], h.unheld, h.queued⟩
  · exact h.toSane

theorem InProgress.sound (h : InProgress env cfg a) : Sound env cfg a where
  ordered := h.sane.ordered
  own := h.sane.own
  queued := h.sane.queued
  held := fun hc => absurd h.sane.unheld hc
  progress := fun _ => h
  succeeded := by simp [h.sane.inProgress]

theorem Succeeded.sound (h : Succeeded env cfg a) : Sound env cfg a where
  ordered := h.ordered
  own := h.own
  queued := h.queued
  held := fun _ => h.succeeded
  progress := by simp [h.succeeded]
  succeeded := fun _ => h

theorem sound_send (ho : Ordered a.log) (hown : ∀ e ∈ a.log, ∀ c, e.context = some c → a.mech = some c)
    (hq : a.handed ++ a.output = a.log.flatMap bytes) (hf : a.status = .failed) (hc : a.credentials = none)
    (m : TsRequest) : Sound env cfg (a.send m) where
  ordered := ho.snoc (by simp [usesKeys]) (by simp [isStep])
  own := by
    intro e he c hc'
    rcases mem_append.mp he with he | he
    · exact hown e he c hc'
    · cases mem_singleton.mp he
      cases hc'
  queued := by
    change a.handed ++ (a.output ++ _) = (a.log ++ [_]).flatMap bytes
    rw [← append_assoc, hq, flatMap_append]
    simp [bytes]
  held := fun h => absurd hc h
  progress := by simp [hf]
  succeeded := by simp [hf]

/-- A handshake that is refused has failed and holds nothing. -/
theorem fail_sound (ho : Ordered a.log) (hown : ∀ e ∈ a.log, ∀ c, e.context = some c → a.mech = some c)
    (hq : a.handed ++ a.output = a.log.flatMap bytes) (reason : String) : Sound env cfg (a.fail reason) := by
  unfold fail
  by_cases hv : a.version = 3 ∨ a.version = 4 ∨ a.version = 6
  · simp only [if_pos hv]
    refine sound_send ?_ ?_ ?_ rfl rfl _
    · exact ho
    · exact hown
    · exact hq
  · simp only [if_neg hv]
    exact ⟨ho, hown, hq, by simp, by simp, by simp⟩

theorem take_sound (h : Sound env cfg a) (hi : a.status = .inProgress) (bytes : Bytes) :
    Sound env cfg (take env cfg bytes a) := by
  unfold take
  rcases decodeTsRequest bytes with e | request
  · exact fail_sound h.ordered h.own h.queued _
  · have hspec := handle_spec (h.progress hi) request
    unfold wp at hspec
    simp only [step]
    rcases hx : exec (handle env cfg request) a with ⟨reason | _, a'⟩
    · rw [hx] at hspec
      exact fail_sound hspec.ordered hspec.own hspec.queued reason
    · rw [hx] at hspec
      rcases hspec with hspec | hspec
      · exact InProgress.sound (.inr hspec)
      · exact hspec.sound

/-- Unread input and what is taken away say nothing about the handshake. -/
theorem Sound.withRemaining (h : Sound env cfg a) (rest : Bytes) : Sound env cfg { a with remaining := rest } where
  ordered := h.ordered
  own := h.own
  queued := h.queued
  held := h.held
  progress := by
    intro hi
    rcases h.progress hi with hw | ⟨hr, hs⟩
    · exact .inl { hw with }
    · exact .inr ⟨{ hr with }, hs⟩
  succeeded := by
    intro hs
    obtain ⟨h1, h2, h3, h4, c, v, credentials, hg⟩ := h.succeeded hs
    exact ⟨h1, h2, h3, h4, c, v, credentials, { hg with }⟩

theorem Sound.taken (h : Sound env cfg a) : Sound env cfg { a with output := [], handed := a.handed ++ a.output } where
  ordered := h.ordered
  own := h.own
  queued := (append_nil _).trans h.queued
  held := h.held
  progress := by
    intro hi
    rcases h.progress hi with hw | ⟨hr, hs⟩
    · exact .inl { hw with queued := (append_nil _).trans h.queued }
    · exact .inr ⟨{ hr with queued := (append_nil _).trans h.queued }, hs⟩
  succeeded := by
    intro hs
    obtain ⟨h1, h2, h3, h4, c, v, credentials, hg⟩ := h.succeeded hs
    exact ⟨h1, h2, h3, (append_nil _).trans h4, c, v, credentials, { hg with }⟩

theorem Sound.withoutCredentials (h : Sound env cfg a) : Sound env cfg { a with credentials := none } where
  ordered := h.ordered
  own := h.own
  queued := h.queued
  held := by simp
  progress := by
    intro hi
    rcases h.progress hi with hw | ⟨hr, hs⟩
    · exact .inl { hw with unheld := rfl }
    · exact .inr ⟨{ hr with unheld := rfl }, hs⟩
  succeeded := by
    intro hs
    obtain ⟨h1, h2, h3, h4, c, v, credentials, hg⟩ := h.succeeded hs
    exact ⟨h1, h2, h3, h4, c, v, credentials, { hg with held := by simp }⟩

theorem receive_sound {b : Framing.Buffered UInt8 (Acceptor C W)} (h : Sound env cfg b.session) (bytes : Bytes) :
    Sound env cfg (receive env cfg b bytes).session := by
  refine Framing.receive_induction (framing_lawful env cfg) (fun s rest hs _ => ?_) (fun s rest hs _ => ?_)
    (fun s e hs => fail_sound hs.ordered hs.own hs.queued _) (fun s frame hs hopen => ?_) b bytes h
  · simp only [framing]
    by_cases hd : s.status = .succeeded
    · rw [if_pos hd]
      exact hs.withRemaining rest
    · rwa [if_neg hd]
  · simp only [framing]
    by_cases hd : s.status = .succeeded
    · rw [if_pos hd]
      exact hs.withRemaining _
    · rwa [if_neg hd]
  · exact take_sound hs (by simpa [framing] using hopen) frame

theorem run_sound (env : Provider C W) (cfg : AcceptorConfig C W) (w : W) (calls : List Call) :
    Sound env cfg (run env cfg w calls).session := by
  unfold run
  have hnew : Sound env cfg (new w).session := InProgress.sound (.inl ⟨rfl, rfl, rfl, rfl, rfl, rfl, rfl⟩)
  induction calls using List.reverseRecOn with
  | nil => exact hnew
  | append_singleton calls call ih =>
    rw [foldl_append]
    rcases call with bytes | _ | _ | _
    · exact receive_sound ih bytes
    · exact ih.taken
    · exact ih.withRemaining []
    · exact ih.withoutCredentials

/-- **CredSSP never succeeds without the whole proof**, and the messages that
count as sent are those of the bytes for the client. -/
theorem run_succeeded (env : Provider C W) (cfg : AcceptorConfig C W) (w : W) (calls : List Call) :
    let a := (run env cfg w calls).session
    (a.status = .succeeded → ∃ c v credentials, Granted env cfg c v credentials a) ∧ Ordered a.log ∧
      (∀ e ∈ a.log, ∀ e' ∈ a.log, ∀ c c', e.context = some c → e'.context = some c' → c = c') ∧
      (a.credentials ≠ none → a.status = .succeeded) ∧ a.handed ++ a.output = a.log.flatMap bytes ∧
      ∀ pieces, (framing env cfg).receiveAll (new w) pieces = receive env cfg (new w) pieces.flatten := by
  have h := run_sound env cfg w calls
  refine ⟨fun hs => (h.succeeded hs).granted, h.ordered, ?_, h.held, h.queued, ?_⟩
  · intro e he e' he' c c' hc hc'
    have h1 := h.own e he c hc
    rw [h.own e' he' c' hc'] at h1
    exact (Option.some.inj h1).symm
  · intro pieces
    exact Framing.receiveAll_eq (framing_lawful env cfg) pieces (new w) (receive_new env cfg w)

/-! ### A run -/

/-- A context that is complete after one step, with `token` left to send. -/
def oneStep (token : Bytes) : Provider Unit Unit where
  mechanism _ _ := Spnego.ntlmOid
  step _ _ w := (.ok ⟨token, true⟩, w)
  wrap _ plaintext w := (plaintext, w)
  unwrap _ wrapped w := (.ok wrapped, w)
  getMic _ _ w := ([], w)
  verifyMic _ _ _ w := (.ok (), w)
  resetCipherState _ w := w
  identity _ _ := ⟨text "alice", []⟩
  sha256 _ := .replicate 32 0

theorem sampleKey_ne_nil : ([1, 2, 3] : Bytes) ≠ [] := by decide

/-- An acceptor that has NTLM only. -/
def ntlmOnly : AcceptorConfig Unit Unit where
  serverPublicKey := [1, 2, 3]
  makeMechanism oid w := (if oid = Spnego.ntlmOid then some () else none, w)
  key_ne_nil := sampleKey_ne_nil
  min_le_max := by decide

/-- The key in the first TSRequest, the credentials in the second, and the start of the RDP stream. -/
example : (run (oneStep []) ntlmOnly () [.receive (
      encodeTsRequest { version := 2, negoTokens := [Spnego.ntlmSignature], pubKeyAuth := some [1, 2, 3] } ++
      encodeTsRequest { version := 2, authInfo := some (encodeTsCredentials (.password ⟨[], [65, 0], [66, 0]⟩)) } ++
      [3])]).session.status = .succeeded := by decide +kernel

end Acceptor
end Credssp
end Auth
end Farland
