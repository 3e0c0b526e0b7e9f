/-
# The initiator checks the server's MIC

The initiator reads request-mic in the first reply only, which is where RFC
4178 4.2.2 has it, and holds the credentials back until the list is verified
(`Careful`). Together with the acceptor's side: nobody in between can downgrade
the mechanism in a run that is `Separate` and `Prompt` (`run_listVerified`).
`answered_without_mic` is a run that is not.
-/
import Farland.Auth.ClientMic
import Farland.Auth.Initiator

namespace Farland
namespace Auth
namespace Credssp

open Spnego Handler List Acceptor

namespace Initiator

variable {request : TsRequest}

variable {C W α : Type} {env : Provider C W} {cfg : InitiatorConfig C} {a : Initiator C W}

/-! ### The initiator -/

/-- A reply that asks for the MIC. -/
def requestsMic (request : TsRequest) : Bool :=
  match decode (request.negoTokens.headD []) with
  | .ok (.resp token) => token.negState = some .requestMic
  | _ => false

/-- The initiator's mechanism is not the first of its list, or it was sent request-mic. -/
def MicDue (cfg : InitiatorConfig C) (log : List (Event C)) : Prop := cfg.useSpnego = true ∧
  (cfg.preferredMechTypes ≠ [] ∨ ∃ r, .received r ∈ log ∧ requestsMic r = true)

/-- The DER of the list that was sent. -/
def ListSent (cfg : InitiatorConfig C) (der : Bytes) (log : List (Event C)) : Prop := ∃ message init own,
  .sent message ∈ log ∧ message.negoTokens = [encodeInit init] ∧ init.mechTypesDer = der ∧
    der = encodeMechTypes (cfg.preferredMechTypes ++ [own])

/-- Where the MIC is due no authInfo goes out before the list was verified. -/
def InfoLast (cfg : InitiatorConfig C) (log : List (Event C)) : Prop := ∀ before message,
  before ++ [.sent message] <+: log → message.authInfo ≠ none → MicDue cfg before →
    ∃ der, ListSent cfg der before ∧ Verified der before

/-- No reply behind the first one carries request-mic. -/
def Prompt (log : List (Event C)) : Prop := ∀ before request, before ++ [.received request] <+: log →
  (∃ r, .received r ∈ before) → requestsMic request = false

variable {log : List (Event C)}

theorem ListSent.mono {der : Bytes} {log' : List (Event C)} (h : ListSent cfg der log) (hp : log <+: log') :
    ListSent cfg der log' := by
  obtain ⟨message, init, own, hmem, h⟩ := h
  exact ⟨message, init, own, hp.subset hmem, h⟩

theorem Prompt.mono {log' : List (Event C)} (h : Prompt log') (hp : log <+: log') : Prompt log :=
  fun before request hb => h before request (hb.trans hp)

/-- An event of a reply that asks for the MIC. -/
def asksMic : Event C → Bool
  | .received request => requestsMic request
  | _ => false

/-- The first reply is at `k` or behind it, and no later one asks. -/
theorem prompt_of_take (k : ℕ) (h1 : ∀ e ∈ log.take k, e.request = none)
    (h2 : ∀ e ∈ log.drop (k + 1), asksMic e = false) : Prompt log := by
  rintro before request ⟨rest, rfl⟩ ⟨r, hr⟩
  have hk : k < before.length := by
    by_contra hle
    have hmem : Event.received r ∈ (before ++ [Event.received request] ++ rest).take k := by
      rw [append_assoc, take_append]
      exact mem_append_left _ (by rwa [take_of_length_le (by omega)])
    cases h1 _ hmem
  have hmem : Event.received request ∈ (before ++ [Event.received request] ++ rest).drop (k + 1) := by
    rw [append_assoc, drop_append_of_le_length (by omega)]
    simp
  exact h2 _ hmem

variable {e : Event C}

theorem InfoLast.snoc (h : InfoLast cfg log)
    (he : ∀ m, e = .sent m → m.authInfo ≠ none → MicDue cfg log → ∃ der, ListSent cfg der log ∧ Verified der log) :
    InfoLast cfg (log ++ [e]) := by
  intro before message hb hinfo hdue
  rcases prefix_concat_iff.mp hb with heq | hb
  · obtain ⟨rfl, hlast⟩ := append_inj' heq rfl
    exact he message (singleton_injective hlast).symm hinfo hdue
  · exact h before message hb hinfo hdue

/-- What holds also of an initiator that refuses. -/
def Info (cfg : InitiatorConfig C) (a : Initiator C W) : Prop := Prompt a.log → InfoLast cfg a.log

/-- What is known from the first TSRequest on. -/
structure Listed (cfg : InitiatorConfig C) (a : Initiator C W) : Prop where
  required : cfg.preferredMechTypes ≠ [] → a.micRequired = true
  listed : ListSent cfg a.mechTypesDer a.log
  verified : a.serverMicVerified = true → Verified a.mechTypesDer a.log
  info : Info cfg a

/-- Before the first reply, and while the first reply `request` is read. -/
structure Hearing (cfg : InitiatorConfig C) (replies : List TsRequest) (a : Initiator C W) : Prop extends
    Listed cfg a where
  first : a.firstReply = true
  negotiating : a.phase = .negotiate
  only : ∀ r, .received r ∈ a.log ↔ r ∈ replies

/-- Behind the first reply. -/
structure Heard (cfg : InitiatorConfig C) (a : Initiator C W) : Prop extends Listed cfg a where
  later : a.firstReply = false
  heard : ∃ r, .received r ∈ a.log
  asked : Prompt a.log → (∃ r, .received r ∈ a.log ∧ requestsMic r = true) → a.micRequired = true

theorem Info.record (h : Info cfg a) {w : W} (hs : ∀ m, e = .sent m → m.authInfo ≠ none →
    Prompt a.log → MicDue cfg a.log → ∃ der, ListSent cfg der a.log ∧ Verified der a.log) :
    Info cfg { a with trace := a.trace.record w e } := by
  intro hp
  have hp' : Prompt a.log := hp.mono (prefix_append _ _)
  exact (h hp').snoc (fun m hm hinfo => hs m hm hinfo hp')

theorem Listed.record (h : Listed cfg a) {w : W} (hs : ∀ m, e = .sent m → m.authInfo ≠ none →
    Prompt a.log → MicDue cfg a.log → ∃ der, ListSent cfg der a.log ∧ Verified der a.log) :
    Listed cfg { a with trace := a.trace.record w e } where
  required := h.required
  listed := h.listed.mono (prefix_append _ _)
  verified := fun hv => (h.verified hv).mono (prefix_append _ _)
  info := h.info.record hs

theorem received_snoc (he : ∀ r, e ≠ .received r) (r : TsRequest) : .received r ∈ log ++ [e] ↔ .received r ∈ log := by
  constructor
  · intro hmem
    rcases mem_append.mp hmem with hmem | hmem
    · exact hmem
    · exact absurd (mem_singleton.mp hmem).symm (he r)
  · exact mem_append_left _

theorem Heard.record (h : Heard cfg a) {w : W} (hr : ∀ r, e ≠ .received r)
    (hs : ∀ m, e = .sent m → m.authInfo ≠ none → Prompt a.log → MicDue cfg a.log →
      ∃ der, ListSent cfg der a.log ∧ Verified der a.log) : Heard cfg { a with trace := a.trace.record w e } where
  toListed := h.toListed.record hs
  later := h.later
  heard := by
    obtain ⟨r, hmem⟩ := h.heard
    exact ⟨r, mem_append_left _ hmem⟩
  asked := by
    rintro hp ⟨r, hmem, hreq⟩
    exact h.asked (hp.mono (prefix_append _ _)) ⟨r, (received_snoc hr r).mp hmem, hreq⟩

/-- Once the server's MIC is verified the list is; the credentials may go. -/
theorem Heard.released (h : Heard cfg a) (hv : a.micRequired = true → a.serverMicVerified = true) (hp : Prompt a.log)
    (hdue : MicDue cfg a.log) : ∃ der, ListSent cfg der a.log ∧ Verified der a.log := by
  have hreq : a.micRequired = true := by
    rcases hdue.2 with hfirst | hasked
    · exact h.required hfirst
    · exact h.asked hp hasked
  exact ⟨a.mechTypesDer, h.listed, h.verified (hv hreq)⟩

theorem Heard.send (h : Heard cfg a) {m : TsRequest}
    (hv : m.authInfo ≠ none → a.micRequired = true → a.serverMicVerified = true) : Heard cfg (a.send cfg m) := by
  have hsent := h.record (w := a.trace.world) (e := .sent { m with
      version := cfg.version, clientNonce := if 5 ≤ a.version then some cfg.nonce else m.clientNonce }) (by simp)
    (by intro m' hm' hinfo; cases hm'; exact h.released (hv hinfo))
  exact { hsent with }

variable {R : String → Initiator C W → Prop}

/-- A call changes the trace only. -/
theorem Heard.call (h : Heard cfg a) {f : Trace C W → α × Trace C W} (hf : Calls f) :
    wp (call f) (fun _ a' => Heard cfg a' ∧ a.log <+: a'.log ∧
      a'.micRequired = a.micRequired ∧ a'.serverMicVerified = a.serverMicVerified) R a := by
  obtain ⟨w, e, ht, -, hs, hr⟩ := hf a.trace
  change Heard cfg { a with trace := (f a.trace).2 } ∧ a.log <+: (f a.trace).2.log ∧ _
  rw [ht]
  exact ⟨h.record hr (fun m hm => absurd hm (hs m)), prefix_append _ _, rfl, rfl⟩

theorem sendPubKeyAuth_heard (h : Heard cfg a) {m : TsRequest} (hm : m.authInfo = none) :
    wp (sendPubKeyAuth env cfg m) (fun _ => Heard cfg) (fun _ => Info cfg) a := by
  unfold sendPubKeyAuth
  rw [wp_bind, wp_get, wp_bind]
  refine wp_mono (h.call (wrap_calls cfg.mechanism _)) (fun wrapped a1 h1 => ?_) (fun _ _ h1 => h1)
  simp only [wp_bind, wp_update]
  have h2 : Heard cfg { a1 with phase := .pubKeyAuth } := { h1.1 with }
  exact h2.send (by simp [hm])

theorem lastMessage_authInfo (token : Bytes) (mic : Option Bytes) : (lastMessage token mic).authInfo = none := by
  unfold lastMessage
  by_cases h : token ≠ [] ∨ mic ≠ none
  · rw [if_pos h]
  · rw [if_neg h]

theorem sendStep_heard (h : Heard cfg a) (step : Step) :
    wp (sendStep env cfg step) (fun _ => Heard cfg) (fun _ => Info cfg) a := by
  unfold sendStep
  rw [wp_ite]
  refine of_ite (fun _ => ?_) fun _ => ?_
  · rw [wp_update]
    exact h.send (by simp)
  · rw [wp_ite]
    refine of_ite (fun _ => sendPubKeyAuth_heard h rfl) fun _ => ?_
    unfold ownMic restart
    simp only [wp_bind, wp_get]
    have hmic : wp (if a.micRequired then some <$> call (Trace.getMic env cfg.mechanism a.mechTypesDer) else pure none)
        (fun _ => Heard cfg) (fun _ => Info cfg) a := by
      rw [wp_ite]
      refine of_ite (fun _ => ?_) fun _ => ?_
      · rw [wp_map]
        exact wp_mono (h.call (getMic_calls cfg.mechanism _)) (fun _ _ h1 => h1.1) (fun _ _ h1 => h1)
      · exact h
    refine wp_mono hmic (fun mic a1 h1 => ?_) (fun _ _ h1 => h1)
    have hreset : wp (if mic ≠ none ∨ a1.serverMicVerified = true then
          call (Trace.resetCipherState env cfg.mechanism) else pure ())
        (fun _ => Heard cfg) (fun _ => Info cfg) a1 := by
      rw [wp_ite]
      refine of_ite (fun _ => ?_) fun _ => ?_
      · exact wp_mono (h1.call (reset_calls cfg.mechanism)) (fun _ _ h2 => h2.1) (fun _ _ h2 => h2)
      · exact h1
    refine wp_mono hreset (fun _ a2 h2 => ?_) (fun _ _ h2 => h2)
    rw [wp_ite]
    refine of_ite (fun _ => ?_) fun _ => ?_
    · simp only [wp_bind, wp_update]
      have h3 : Heard cfg { a2 with phase := .finalToken } := { h2 with }
      exact h3.send (by simp [lastMessage_authInfo])
    · exact sendPubKeyAuth_heard h2 (lastMessage_authInfo _ _)

theorem verifyMic_heard (h : Heard cfg a) (hr : .received request ∈ a.log) {mic : Bytes}
    (hm : micOf request = some mic) :
    wp (verifyMic env cfg mic) (fun _ => Heard cfg) (fun _ => Info cfg) a := by
  unfold verifyMic
  simp only [wp_bind, wp_get, call, wp_act]
  have h1 : Heard cfg { a with trace := (Trace.verifyMic env cfg.mechanism a.mechTypesDer mic a.trace).2 } :=
    h.record (by simp) (by simp)
  refine wp_orRefuse (fun _ hok => ?_) (fun _ _ => h1.info)
  rw [wp_update]
  refine { h1 with verified := fun _ => ⟨cfg.mechanism, mic, request, mem_append_left _ hr, hm, ?_⟩ }
  refine mem_append_right _ ?_
  rw [← hok]
  exact mem_singleton_self _

/-! ### The initiator's negotiation -/

/-- While `request` is handled: it is the first reply, or the first one is behind. -/
def Hears (cfg : InitiatorConfig C) (request : TsRequest) (a : Initiator C W) : Prop :=
  (Hearing cfg [request] a ∨ Heard cfg a) ∧ .received request ∈ a.log

theorem Hears.listed (h : Hears cfg request a) : Listed cfg a := by
  rcases h.1 with h | h
  · exact h.toListed
  · exact h.toListed

theorem takeFirstReply_heard (h : Hears cfg request a) {resp : NegTokenResp}
    (hdecode : decode (request.negoTokens.headD []) = .ok (.resp resp)) :
    wp (takeFirstReply env cfg resp) (fun _ a' => Heard cfg a' ∧ a'.log = a.log) (fun _ => Info cfg) a := by
  have hreq : requestsMic request = decide (resp.negState = some .requestMic) := by rw [requestsMic, hdecode]
  unfold takeFirstReply
  rw [wp_bind, wp_get]
  rcases h.1 with hh | hh
  · simp only [hh.first, if_true, wp_bind, wp_update, wp_refuseIf]
    refine of_ite (fun _ => hh.info) fun _ => ?_
    have hnext : Heard cfg { a with
        firstReply := false, micRequired := a.micRequired || resp.negState = some .requestMic } := by
      refine ⟨⟨fun hne => by simp [hh.required hne], hh.listed, hh.verified, hh.info⟩, rfl, ⟨request, h.2⟩, ?_⟩
      rintro - ⟨r, hmem, hr⟩
      have hrr : r = request := by simpa using (hh.only r).mp hmem
      rw [hrr, hreq] at hr
      simp [of_decide_eq_true hr]
    unfold checkSupported
    rw [wp_bind, wp_get]
    rcases resp.supportedMech with _ | mech
    · simp only [wp_refuseIf]
      exact of_ite (fun _ => hh.info) fun _ => ⟨hnext, rfl⟩
    · simp only [wp_refuseIf]
      exact of_ite (fun _ => hh.info) fun _ => ⟨hnext, rfl⟩
  · simp only [hh.later]
    exact ⟨hh, rfl⟩

theorem stepInput_heard (h : Heard cfg a) (resp : NegTokenResp) :
    wp (stepInput resp) (fun _ a' => Heard cfg a' ∧ a'.log = a.log) (fun _ => Info cfg) a := by
  unfold stepInput
  rw [wp_bind, wp_get]
  by_cases hp : a.pendingFirstStep = true
  · simp only [if_pos hp, wp_bind, wp_update, wp_refuseIf]
    exact of_ite (fun _ => h.info) fun _ => ⟨{ h with }, rfl⟩
  · simp only [if_neg hp]
    rcases resp.responseToken with _ | token
    · exact h.info
    · exact ⟨h, rfl⟩

theorem mechInput_heard (hs : cfg.useSpnego = true) (h : Hears cfg request a) :
    wp (mechInput env cfg (request.negoTokens.headD []))
      (fun r a' => Heard cfg a' ∧ a'.log = a.log ∧ ∀ m, r.2 = some m → micOf request = some m)
      (fun _ => Info cfg) a := by
  unfold mechInput
  rw [wp_ite, if_pos hs, wp_bind]
  refine wp_orRefuse (fun next hnext => ?_) (fun _ _ => h.listed.info)
  rcases next with init | resp
  · exact h.listed.info
  · simp only [wp_bind, wp_refuseIf, wp_pure]
    refine of_ite (fun _ => h.listed.info) fun _ => ?_
    refine wp_mono (takeFirstReply_heard h hnext) (fun _ a1 h1 => ?_) (fun _ _ h1 => h1)
    refine wp_mono (stepInput_heard h1.1 resp) (fun input a2 h2 => ?_) (fun _ _ h2 => h2)
    refine ⟨h2.1, h2.2.trans h1.2, fun m hm => ?_⟩
    rw [micOf, hnext]
    exact hm

theorem takeMic_heard (h : Heard cfg a) (hr : .received request ∈ a.log) (complete : Bool)
    {mic : Option Bytes} (hm : ∀ m, mic = some m → micOf request = some m) :
    wp (takeMic env cfg complete mic) (fun _ => Heard cfg) (fun _ => Info cfg) a := by
  rcases mic with _ | mic
  · exact h
  · unfold takeMic
    rw [wp_ite]
    exact of_ite (fun _ => verifyMic_heard h hr (hm mic rfl)) fun _ => h

theorem handleNegotiate_heard (hs : cfg.useSpnego = true) (h : Hears cfg request a) :
    wp (handleNegotiate env cfg request) (fun _ => Heard cfg) (fun _ => Info cfg) a := by
  unfold handleNegotiate
  simp only [wp_bind, wp_refuseIf]
  refine of_ite (fun _ => h.listed.info) fun _ => ?_
  refine wp_mono (mechInput_heard hs h) (fun r a1 h1 => ?_) (fun _ _ h1 => h1)
  obtain ⟨h1, hlog, hm⟩ := h1
  refine wp_mono (h1.call (step_calls cfg.mechanism r.1)) (fun answer a2 h2 => ?_) (fun _ _ h2 => h2)
  refine wp_orRefuse (fun step _ => ?_) (fun _ _ => h2.1.info)
  have hr : .received request ∈ a2.log := h2.2.1.subset (by rw [hlog]; exact h.2)
  refine wp_mono (takeMic_heard h2.1 hr step.complete hm) (fun _ a3 h3 => ?_) (fun _ _ h3 => h3)
  exact sendStep_heard h3 step

theorem handleFinalToken_heard (h : Heard cfg a) (hr : .received request ∈ a.log) :
    wp (handleFinalToken env cfg request) (fun _ => Heard cfg) (fun _ => Info cfg) a := by
  unfold handleFinalToken
  simp only [wp_bind, wp_refuseIf]
  refine of_ite (fun _ => h.info) fun _ => ?_
  refine wp_orRefuse (fun token htoken => ?_) (fun _ _ => h.info)
  rcases token with init | resp
  · exact h.info
  · simp only [wp_bind, wp_refuseIf]
    refine of_ite (fun _ => h.info) fun _ => ?_
    rcases hmic : resp.mechListMic with _ | mic
    · exact h.info
    · have hof : micOf request = some mic := by rw [micOf, htoken]; exact hmic
      simp only [wp_bind]
      refine wp_mono (verifyMic_heard h hr hof) (fun _ a1 h1 => ?_) (fun _ _ h1 => h1)
      refine wp_mono (h1.call (reset_calls cfg.mechanism)) (fun _ a2 h2 => ?_) (fun _ _ h2 => h2)
      exact sendPubKeyAuth_heard h2.1 rfl

theorem takeFinalToken_heard (h : Heard cfg a) (hr : .received request ∈ a.log) :
    wp (takeFinalToken env cfg request) (fun _ => Heard cfg) (fun _ => Info cfg) a := by
  unfold takeFinalToken
  rw [wp_ite]
  refine of_ite (fun _ => h) fun _ => ?_
  simp only [wp_bind, wp_get, wp_refuseIf]
  refine of_ite (fun _ => h.info) fun _ => ?_
  refine wp_orRefuse (fun token htoken => ?_) (fun _ _ => h.info)
  rcases token with init | resp
  · exact h.info
  · simp only [wp_bind, wp_refuseIf]
    refine of_ite (fun _ => h.info) fun _ => ?_
    rcases hmic : resp.mechListMic with _ | mic
    · exact h
    · have hof : micOf request = some mic := by rw [micOf, htoken]; exact hmic
      by_cases hv : a.serverMicVerified = true
      · simp only [if_pos hv]
        exact h
      · simp only [if_neg hv]
        exact verifyMic_heard h hr hof

theorem handlePubKeyAuth_heard (h : Heard cfg a) (hr : .received request ∈ a.log) :
    wp (handlePubKeyAuth env cfg request) (fun _ => Heard cfg) (fun _ => Info cfg) a := by
  unfold handlePubKeyAuth
  rw [wp_bind]
  refine wp_mono (takeFinalToken_heard h hr) (fun _ a1 h1 => ?_) (fun _ _ h1 => h1)
  rcases request.pubKeyAuth with _ | p
  · simp only [wp_refuseIf]
    exact of_ite (fun _ => h1.info) fun _ => h1
  · simp only [wp_bind, wp_get, wp_refuseIf, wp_update]
    refine of_ite (fun _ => h1.info) fun hreq => ?_
    refine wp_mono (h1.call (unwrap_calls cfg.mechanism p)) (fun answer a2 h2 => ?_) (fun _ _ h2 => h2)
    refine wp_orRefuse (fun plaintext _ => ?_) (fun _ _ => h2.1.info)
    refine of_ite (fun _ => h2.1.info) fun _ => ?_
    refine wp_mono (h2.1.call (wrap_calls cfg.mechanism _)) (fun wrapped a3 h3 => ?_) (fun _ _ h3 => h3)
    have h4 : Heard cfg { a3 with phase := .done, status := .succeeded } := { h3.1 with }
    refine h4.send (fun _ hreq3 => ?_)
    change a3.micRequired = true at hreq3
    change a3.serverMicVerified = true
    rw [h3.2.2.2, h2.2.2.2]
    rw [h3.2.2.1, h2.2.2.1] at hreq3
    simpa [hreq3] using hreq

/-! ### The initiator's runs -/

/-- A request comes in. -/
theorem receive_hears (h : Hearing cfg [] a ∨ Heard cfg a) (request : TsRequest) :
    Hears cfg request { a with trace := a.trace.note (.received request) } := by
  refine ⟨?_, by simp [log]⟩
  rcases h with h | h
  · refine .inl { h.toListed.record (by simp) with first := h.first, negotiating := h.negotiating, only := fun r => ?_ }
    have hnone := h.only r
    simp only [log] at hnone
    simp [log, hnone]
  · refine .inr ⟨h.toListed.record (by simp), h.later, ⟨request, by simp [log]⟩, ?_⟩
    rintro hp ⟨r, hmem, hr⟩
    refine h.asked (hp.mono (prefix_append _ _)) ?_
    rcases mem_append.mp hmem with hmem | hmem
    · exact ⟨r, hmem, hr⟩
    · cases mem_singleton.mp hmem
      have hno := hp a.log request prefix_rfl h.heard
      simp [hno] at hr

theorem Hears.version (h : Hears cfg request a) (serverVersion version : ℕ) :
    Hears cfg request { a with serverVersion := serverVersion, version := version } := by
  refine ⟨?_, h.2⟩
  rcases h.1 with hh | hh
  · exact .inl { hh with }
  · exact .inr { hh with }

theorem dispatch_heard (hs : cfg.useSpnego = true) (h : Hears cfg request a) :
    wp (dispatch env cfg request) (fun _ => Heard cfg) (fun _ => Info cfg) a := by
  unfold dispatch
  rw [wp_bind, wp_get]
  rcases h.1 with hh | hh
  · rw [hh.negotiating]
    exact handleNegotiate_heard hs h
  · rcases a.phase
    · exact handleNegotiate_heard hs h
    · exact handleFinalToken_heard hh h.2
    · exact handlePubKeyAuth_heard hh h.2
    · exact hh.info

theorem handle_heard (hs : cfg.useSpnego = true) (h : Hearing cfg [] a ∨ Heard cfg a) (request : TsRequest) :
    wp (handle env cfg request) (fun _ => Heard cfg) (fun _ => Info cfg) a := by
  have h1 := receive_hears h request
  unfold handle
  simp only [wp_bind, wp_update]
  rcases request.errorCode with _ | code
  · unfold agreeVersion
    simp only [wp_bind, wp_get, wp_ite, wp_refuseIf, wp_update, wp_pure]
    by_cases hv : a.serverVersion = 0
    · simp only [if_pos hv]
      exact of_ite (fun _ => h1.listed.info) fun _ => dispatch_heard hs (h1.version _ _)
    · simp only [if_neg hv]
      exact dispatch_heard hs h1
  · simp only [wp_bind, wp_update, wp_refuse]
    exact h1.listed.info

theorem sendInit_hearing (hd : a.micRequired = true ∨ cfg.preferredMechTypes = []) (hf : a.firstReply = true)
    (hp : a.phase = .negotiate) (hv : a.serverMicVerified = false) (hi : Info cfg a) (hr : ∀ r, .received r ∉ a.log)
    (own : Oid) (token : Option Bytes) :
    wp (sendInit cfg (cfg.preferredMechTypes ++ [own]) token) (fun _ a' => Hearing cfg [] a') R a := by
  unfold sendInit
  refine ⟨⟨?_, ⟨_, _, own, mem_append_right _ (mem_singleton_self _), rfl, rfl, rfl⟩, ?_, ?_⟩, hf, hp, ?_⟩
  · intro hne
    exact hd.resolve_right hne
  · intro hv'
    change a.serverMicVerified = true at hv'
    simp [hv] at hv'
  · exact hi.record (by simp)
  · intro r
    refine ⟨fun hmem => ?_, by simp⟩
    rcases mem_append.mp hmem with hmem | hmem
    · exact absurd hmem (hr r)
    · cases mem_singleton.mp hmem

theorem start_hearing (env : Provider C W) (hs : cfg.useSpnego = true) (w : W) (version : ℕ) :
    wp (start env cfg) (fun _ a' => Hearing cfg [] a') (fun _ => Info cfg)
      { trace := { world := w }, version := version } := by
  have hi : Info cfg ({ trace := { world := w }, version := version } : Initiator C W) := by
    intro _ before message hb
    simp [log] at hb
  unfold start
  rw [wp_bind, wp_get, wp_ite, if_neg (by simp [hs]), wp_ite]
  refine of_ite (fun hpref => ?_) fun hpref => ?_
  · simp only [wp_bind, wp_update, wp_refuseIf, call, wp_act]
    have hi1 := hi.record (w := (Trace.step env cfg.mechanism [] { world := w }).2.world)
      (e := .stepped cfg.mechanism [] (Trace.step env cfg.mechanism [] { world := w }).1) (by simp)
    refine wp_orRefuse (fun step _ => ?_) (fun _ _ => hi1)
    refine of_ite (fun _ => hi1) fun _ => ?_
    refine sendInit_hearing (.inr hpref) ?_ ?_ ?_ ?_ ?_ _ _
    · rfl
    · rfl
    · rfl
    · exact hi1
    · intro r hmem
      simp [log, Trace.step] at hmem
  · simp only [wp_bind, wp_update]
    refine sendInit_hearing (.inl ?_) ?_ ?_ ?_ ?_ ?_ _ _
    · have hlen : 0 < cfg.preferredMechTypes.length := length_pos_iff.mpr hpref
      simp only [mechTypes, length_append, length_singleton, decide_eq_true_eq]
      omega
    · rfl
    · rfl
    · rfl
    · exact hi
    · simp [log]

/-- What holds of an initiator with SPNEGO at any time. -/
structure Careful (cfg : InitiatorConfig C) (a : Initiator C W) : Prop where
  info : Info cfg a
  progress : a.status = .inProgress → Hearing cfg [] a ∨ Heard cfg a

theorem after_careful {x : Outcome C W Unit} {P : Initiator C W → Prop}
    (h : wp x (fun _ => P) (fun _ => Info cfg) a) (hP : ∀ a', P a' → Hearing cfg [] a' ∨ Heard cfg a') :
    Careful cfg (after x a) := by
  unfold wp at h
  unfold after
  rcases hx : exec x a with ⟨reason | _, a'⟩
  · rw [hx] at h
    exact ⟨h, by simp [fail]⟩
  · rw [hx] at h
    refine ⟨?_, fun _ => hP a' h⟩
    rcases hP a' h with hh | hh
    · exact hh.info
    · exact hh.info

theorem take_careful (env : Provider C W) (hs : cfg.useSpnego = true) (h : Careful cfg a) (ho : a.status = .inProgress)
    (bytes : Bytes) : Careful cfg (take env cfg bytes a) := by
  unfold take
  rcases decodeTsRequest bytes with e | request
  · exact ⟨h.info, by simp [fail]⟩
  · exact after_careful (handle_heard hs (h.progress ho) request) (fun _ h' => .inr h')

theorem Careful.withRemaining (h : Careful cfg a) (rest : Bytes) : Careful cfg { a with remaining := rest } := by
  refine ⟨h.info, fun ho => ?_⟩
  rcases h.progress ho with hh | hh
  · exact .inl { hh with }
  · exact .inr { hh with }

theorem Careful.withOutput (h : Careful cfg a) (out : Bytes) : Careful cfg { a with output := out } := by
  refine ⟨h.info, fun ho => ?_⟩
  rcases h.progress ho with hh | hh
  · exact .inl { hh with }
  · exact .inr { hh with }

theorem receive_careful (env : Provider C W) (hs : cfg.useSpnego = true) {b : Framing.Buffered UInt8 (Initiator C W)}
    (h : Careful cfg b.session) (bytes : Bytes) : Careful cfg (receive env cfg b bytes).session := by
  refine Framing.receive_induction (framing_lawful env cfg) (P := Careful cfg) (fun s rest h _ => ?_)
    (fun s rest h _ => ?_) (fun s e h => ⟨h.info, by simp [framing, fail]⟩)
    (fun s frame h hopen => take_careful env hs h (by simpa [framing] using hopen) frame) b bytes h
  · simp only [framing]
    by_cases hd : s.status = .succeeded
    · rw [if_pos hd]
      exact h.withRemaining rest
    · rwa [if_neg hd]
  · simp only [framing]
    by_cases hd : s.status = .succeeded
    · rw [if_pos hd]
      exact h.withRemaining _
    · rwa [if_neg hd]

theorem run_careful (env : Provider C W) (hs : cfg.useSpnego = true) (w : W) (calls : List Call) :
    Careful cfg (run env cfg w calls).session := by
  unfold run
  induction calls using List.reverseRecOn with
  | nil => exact after_careful (start_hearing env hs w cfg.version) (fun _ h => .inl h)
  | append_singleton calls call ih =>
    rw [foldl_append]
    rcases call with bytes | _ | _
    · exact receive_careful env hs ih bytes
    · exact ih.withOutput []
    · exact ih.withRemaining []

theorem run_info (env : Provider C W) (cfg : InitiatorConfig C) (w : W) (calls : List Call) :
    Info cfg (run env cfg w calls).session := by
  by_cases hs : cfg.useSpnego = true
  · exact (run_careful env hs w calls).info
  · intro _ before message _ _ hdue
    exact absurd hdue.1 hs

end Initiator
/-! ### Both sides -/

/-- **A mechanism other than the client's first choice is not used before the list is verified**: the acceptor sends
its pubKeyAuth, and goes on to the credentials, behind the client's MIC, and the initiator its credentials behind the
server's. -/
theorem run_listVerified {C W : Type} (env : Provider C W) (cfg : AcceptorConfig C W) (icfg : InitiatorConfig C) (w : W)
    (calls : List Acceptor.Call) (icalls : List Initiator.Call) :
    (Separate (run env cfg w calls).session.log → MicFirst (run env cfg w calls).session.log ∧
        (SecondChoice (run env cfg w calls).session.log → (run env cfg w calls).session.Passed →
          ListVerified (run env cfg w calls).session.log)) ∧
      (Initiator.Prompt (Initiator.run env icfg w icalls).session.log →
        Initiator.InfoLast icfg (Initiator.run env icfg w icalls).session.log) := by
  have h := run_mics env cfg w calls
  refine ⟨fun hsep => ⟨h.first hsep, fun hsecond hpassed => ?_⟩, Initiator.run_info env icfg w icalls⟩
  have hreq := h.required.mpr hsecond
  exact h.listVerified hreq (h.passed hpassed hsep hreq)

/-- The client's list: Kerberos, then NTLM. -/
def kerberosFirst : TsRequest :=
  { version := 2, negoTokens := [encodeInit (makeNegTokenInit [kerberosOid, ntlmOid])] }

/-- The client's token and its pubKeyAuth, with or without its MIC. -/
def tokenAndKey (mic : Option Bytes) : TsRequest :=
  { version := 2, negoTokens := [encodeResp { responseToken := some [7], mechListMic := mic }]
    pubKeyAuth := some [1, 2, 3] }

def passwordInfo : TsRequest :=
  { version := 2, authInfo := some (encodeTsCredentials (.password ⟨[], [65, 0], [66, 0]⟩)) }

/-- A mechanism that completes with the token `left`, and a client whose pubKeyAuth comes with its own last one. -/
def secondChoiceRun (left : Bytes) (mic : Option Bytes) : Framing.Buffered UInt8 (Acceptor Unit Unit) :=
  run (oneStep left) ntlmOnly ()
    [.receive (encodeTsRequest kerberosFirst),
      .receive (encodeTsRequest (tokenAndKey mic) ++ encodeTsRequest passwordInfo)]

/-- An initiator that would rather have run Kerberos. -/
def preferKerberos : InitiatorConfig Unit where
  mechanism := ()
  serverPublicKey := [1, 2, 3]
  credentials := ⟨[], text "alice", text "pw"⟩
  version := 2
  nonce := .replicate 32 0
  preferredMechTypes := [kerberosOid]
  key_ne_nil := sampleKey_ne_nil
  min_le_version := by decide

def serverReplies : List Initiator.Call := [.receive
  (encodeTsRequest { version := 2, negoTokens := [encodeResp
      { negState := some .requestMic, supportedMech := some ntlmOid }] } ++
    encodeTsRequest { version := 2, negoTokens := [encodeResp
      { negState := some .acceptCompleted, mechListMic := some [5] }] } ++
    encodeTsRequest { version := 2, pubKeyAuth := some [2, 2, 3] })]

/-- With the MICs both sides go through to the end. -/
theorem mics_exchanged : ListVerified (secondChoiceRun [] (some [5])).session.log ∧ Initiator.InfoLast preferKerberos
      (Initiator.run (oneStep []) preferKerberos () serverReplies).session.log := by
  have h := run_listVerified (oneStep []) ntlmOnly preferKerberos () [.receive (encodeTsRequest kerberosFirst),
      .receive (encodeTsRequest (tokenAndKey (some [5])) ++ encodeTsRequest passwordInfo)] serverReplies
  refine ⟨(h.1 (separate_of_leftToken ?_)).2 ⟨1, ntlmOid, (), ?_, by decide⟩ (.inr ?_), h.2 ?_⟩
  · decide +kernel
  · decide +kernel
  · decide +kernel
  · exact Initiator.prompt_of_take 1 (by decide +kernel) (by decide +kernel)

/-- **The acceptor may answer without the MIC.** The last step leaves a token, the client's pubKeyAuth comes in the same
TSRequest and brings no MIC: the acceptor sends its own pubKeyAuth and succeeds with `verify_mic` never called. -/
theorem answered_without_mic : (secondChoiceRun [9] none).session.status = .succeeded ∧
    ¬ MicFirst (secondChoiceRun [9] none).session.log := by
  refine ⟨by decide +kernel, fun h => ?_⟩
  have hi : (secondChoiceRun [9] none).session.log[9]? = some (.sent (TsRequest.mk 2 [encodeResp
      { negState := some .acceptIncomplete, responseToken := some [9], mechListMic := some [] }]
      none (some [2, 2, 3]) none none)) := by decide +kernel
  have hsecond : SecondChoice ((secondChoiceRun [9] none).session.log.take 9) :=
    ⟨1, ntlmOid, (), by decide +kernel, by decide⟩
  obtain ⟨e, he, hv⟩ := h.verifies hi (by simp) hsecond
  have hnone : ∀ e ∈ (secondChoiceRun [9] none).session.log.take 9, e.verifies = false := by decide +kernel
  simp [hnone e he] at hv

end Credssp
end Auth
end Farland
