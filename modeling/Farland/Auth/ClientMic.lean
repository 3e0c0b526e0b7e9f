/-
# The acceptor checks the client's MIC

`Mics` is what the acceptor knows about the exchange at any time; every handler
keeps it. The client's pubKeyAuth reaches `answerPubKeyAuth` on two ways, with
the last token of the mechanism and on its own. Only the second one checks
again that a MIC that is due has been verified, so a run has to be `Separate`
for our pubKeyAuth to come after the MIC (`Mics.first`).
-/
import Farland.Auth.Delegation
import Farland.Auth.MechListMic

namespace Farland
namespace Auth
namespace Credssp

open Spnego Handler List

namespace Acceptor

variable {request : TsRequest} {mic : Option Bytes}

variable {C W α : Type} {env : Provider C W} {cfg : AcceptorConfig C W} {a : Acceptor C W} {c : C}

/-! ### The acceptor -/

/-- Our pubKeyAuth is out. -/
def Passed (a : Acceptor C W) : Prop := (∃ c, a.phase = .credentials c) ∨ a.status = .succeeded

/-- What the acceptor knows about the exchange, in progress or not. -/
structure Mics (a : Acceptor C W) : Prop where
  required : a.micRequired = true ↔ SecondChoice a.log
  spnego : a.micRequired = true → a.spnego = true
  listed : a.micRequired = true → ∃ init i, i ≠ 0 ∧ Selected init i a.log ∧ init.mechTypesDer = a.mechTypesDer
  verified : a.clientMicVerified = true → Verified a.mechTypesDer a.log
  first : Separate a.log → MicFirst a.log
  passed : Passed a → Separate a.log → a.micRequired = true → a.clientMicVerified = true

/-- Once the client's MIC is verified, the list is. -/
theorem Mics.listVerified (h : Mics a) (hr : a.micRequired = true) (hv : a.clientMicVerified = true) :
    ListVerified a.log := by
  obtain ⟨init, i, hi, hsel, hder⟩ := h.listed hr
  exact ⟨init, i, hi, hsel, hder ▸ h.verified hv⟩

/-- After an event that chooses nothing; a pubKeyAuth goes out when it may. -/
theorem Mics.record (h : Mics a) {w : W} {e : Event C} (hc : ∀ i oid c, e ≠ .chose i oid c)
    (hs : ∀ m, e = .sent m → m.pubKeyAuth ≠ none → Separate a.log → a.micRequired = true → a.clientMicVerified = true) :
    Mics { a with trace := a.trace.record w e } where
  required := h.required.trans (secondChoice_snoc hc).symm
  spnego := h.spnego
  listed := by
    intro hr
    obtain ⟨init, i, hi, hsel, hder⟩ := h.listed hr
    exact ⟨init, i, hi, hsel.mono (prefix_append _ _), hder⟩
  verified := fun hv => (h.verified hv).mono (prefix_append _ _)
  first := by
    intro hsep
    have hsep' : Separate a.log := hsep.mono (prefix_append _ _)
    refine (h.first hsep').snoc ?_
    intro m hm hauth hsecond
    have hr := h.required.mpr hsecond
    exact h.listVerified hr (hs m hm hauth hsep' hr)
  passed := fun hp hsep => h.passed hp (hsep.mono (prefix_append _ _))

theorem Mics.send (h : Mics a) {m : TsRequest}
    (hs : m.pubKeyAuth ≠ none → Separate a.log → a.micRequired = true → a.clientMicVerified = true) :
      Mics (a.send m) := by
  have hsent := h.record (w := a.trace.world) (e := .sent { m with version := a.version }) (by simp)
    (by intro m' hm' hauth; cases hm'; exact hs hauth)
  exact { hsent with }

/-- What a call leaves as it was. -/
structure Later (a a' : Acceptor C W) : Prop where
  mics : Mics a'
  log : a.log <+: a'.log
  required : a'.micRequired = a.micRequired
  verified : a.clientMicVerified = true → a'.clientMicVerified = true

theorem Later.refl (h : Mics a) : Later a a := ⟨h, prefix_rfl, rfl, id⟩

theorem Later.trans {b d : Acceptor C W} (h : Later a b) (h' : Later b d) : Later a d :=
  ⟨h'.mics, h.log.trans h'.log, h'.required.trans h.required, fun hv => h'.verified (h.verified hv)⟩

/-- A MIC that was verified where it was due still is. -/
theorem Later.cleared {b : Acceptor C W} (h : Later a b)
    (hv : Separate a.log → a.micRequired = true → a.clientMicVerified = true) (hsep : Separate b.log)
    (hr : b.micRequired = true) : b.clientMicVerified = true :=
  h.verified (hv (hsep.mono h.log) (h.required ▸ hr))

variable {R : String → Acceptor C W → Prop}

theorem Mics.call (h : Mics a) {f : Trace C W → α × Trace C W} (hf : Calls f) : wp (call f) (fun _ => Later a) R a := by
  obtain ⟨w, e, ht, hc, hs, -⟩ := hf a.trace
  change Later a { a with trace := (f a.trace).2 }
  rw [ht]
  exact ⟨h.record hc (fun m hm => absurd hm (hs m)), prefix_append _ _, rfl, id⟩

theorem answerPubKeyAuth_mics (h : Mics a) (hv : Separate a.log → a.micRequired = true → a.clientMicVerified = true)
    (p : Bytes) (t : Option Bytes) :
    wp (answerPubKeyAuth env cfg c p t) (fun _ => Mics) (fun _ => Mics) a := by
  unfold answerPubKeyAuth
  rw [wp_bind]
  refine wp_mono (h.call (unwrap_calls c p)) (fun answer a1 h1 => ?_) (fun _ _ h1 => h1)
  rw [wp_bind]
  refine wp_orRefuse (fun plaintext _ => ?_) (fun _ _ => h1.mics)
  rw [wp_bind, wp_get]
  rcases binding env cfg a1.version a1.nonce with _ | ⟨expected, answer⟩
  · exact h1.mics
  · simp only [wp_bind, wp_refuseIf]
    refine of_ite (fun _ => h1.mics) fun _ => ?_
    refine wp_mono (h1.mics.call (wrap_calls c answer)) (fun wrapped a2 h2 => ?_) (fun _ _ h2 => h2)
    simp only [wp_update]
    have hlater := h1.trans h2
    have h3 : Mics { a2 with phase := .credentials c } :=
      { h2.mics with passed := fun _ hsep hr => hlater.cleared hv hsep hr }
    exact h3.send (fun _ hsep hr => hlater.cleared hv hsep hr)

theorem verifyMic_mics (h : Mics a) (hr : .received request ∈ a.log) {mic : Bytes}
    (hm : micOf request = some mic) : wp (verifyMic env c mic)
      (fun _ a' => Later a a' ∧ a'.clientMicVerified = true) (fun _ => Mics) a := by
  unfold verifyMic
  simp only [wp_bind, wp_get, call, wp_act]
  have h1 : Mics { a with trace := (Trace.verifyMic env c a.mechTypesDer mic a.trace).2 } :=
    h.record (by simp) (by simp)
  refine wp_orRefuse (fun _ hok => ?_) (fun _ _ => h1)
  rw [wp_update]
  have hlog : (Trace.verifyMic env c a.mechTypesDer mic a.trace).2.log =
      a.log ++ [.verifiedMic c a.mechTypesDer mic (.ok ())] := by
    rw [← hok]
    rfl
  refine ⟨⟨⟨h1.required, h1.spnego, h1.listed, fun _ => ⟨c, mic, request, ?_, hm, ?_⟩, h1.first, fun _ _ _ => rfl⟩,
    ?_, rfl,
    fun _ => rfl⟩, rfl⟩
  · exact mem_append_left _ hr
  · change _ ∈ (Trace.verifyMic env c a.mechTypesDer mic a.trace).2.log
    rw [hlog]
    simp
  · exact prefix_append _ _

theorem takeLateMic_mics (h : Mics a) (hr : .received request ∈ a.log) :
    wp (takeLateMic env c request) (fun _ => Mics) (fun _ => Mics) a := by
  unfold takeLateMic
  rw [wp_ite]
  refine of_ite (fun _ => h) fun _ => ?_
  simp only [wp_bind, wp_get, wp_refuseIf]
  refine of_ite (fun _ => h) fun _ => ?_
  refine wp_orRefuse (fun token htoken => ?_) (fun _ _ => h)
  rcases token with init | resp
  · exact h
  · simp only [wp_bind, wp_refuseIf]
    refine of_ite (fun _ => h) fun _ => ?_
    rcases hmic : resp.mechListMic with _ | mic
    · exact h
    · have hof : micOf request = some mic := by rw [micOf, htoken]; exact hmic
      by_cases hv : a.clientMicVerified = true
      · simp only [if_pos hv]
        exact h
      · simp only [if_neg hv, wp_bind]
        refine wp_mono (verifyMic_mics h hr hof) (fun _ a1 h1 => ?_) (fun _ _ h1 => h1)
        exact wp_mono (h1.1.mics.call (reset_calls c)) (fun _ _ h2 => h2.mics) (fun _ _ h2 => h2)

theorem handlePubKeyAuth_mics (h : Mics a) (hr : .received request ∈ a.log) :
    wp (handlePubKeyAuth env cfg c request) (fun _ => Mics) (fun _ => Mics) a := by
  unfold handlePubKeyAuth
  simp only [wp_bind, wp_refuseIf]
  refine of_ite (fun _ => h) fun _ => ?_
  refine wp_mono (takeLateMic_mics h hr) (fun _ a1 h1 => ?_) (fun _ _ h1 => h1)
  rw [wp_get]
  refine of_ite (fun _ => h1) fun hreq => ?_
  rcases request.pubKeyAuth with _ | p
  · exact h1
  · exact answerPubKeyAuth_mics h1 (fun _ hr => by simpa [hr] using hreq) p none

theorem accepted_mics (h : Mics a) (credentials : PasswordCredentials) :
    wp (accepted env cfg c credentials) (fun _ => Later a) R a := by
  unfold accepted
  rcases cfg.acceptCredentials with _ | accept
  · exact Later.refl h
  · exact ⟨h.record (by simp) (by simp), prefix_append _ _, rfl, id⟩

theorem handleCredentials_mics (h : Mics a) (hp : a.phase = .credentials c) (request : TsRequest) :
    wp (handleCredentials env cfg c request) (fun _ => Mics) (fun _ => Mics) a := by
  unfold handleCredentials
  rcases request.authInfo with _ | authInfo
  · exact h
  · rw [wp_bind]
    refine wp_mono (h.call (unwrap_calls c authInfo)) (fun answer a1 h1 => ?_) (fun _ _ h1 => h1)
    rw [wp_bind]
    refine wp_orRefuse (fun plaintext _ => ?_) (fun _ _ => h1.mics)
    rw [wp_bind]
    refine wp_orRefuse (fun ts _ => ?_) (fun _ _ => h1.mics)
    rcases ts with creds | der | der
    · simp only [wp_bind, wp_refuseIf, wp_update]
      refine wp_mono (accepted_mics h1.mics (toPasswordCredentials creds)) (fun answer a2 h2 => ?_) (fun _ _ h2 => h2)
      refine of_ite (fun _ => h2.mics) fun _ => ?_
      have hcleared := (h1.trans h2).cleared (h.passed (.inl ⟨c, hp⟩))
      exact { h2.mics with passed := fun _ hsep hr => hcleared hsep hr }
    · exact h1.mics
    · exact h1.mics

/-! ### The acceptor's negotiation -/

/-- What the last token settles: a client's MIC is verified, and only a token left to send excuses a missing one. -/
structure Settled (clientMic : Option Bytes) (output : Bytes) (a a' : Acceptor C W) : Prop extends Later a a' where
  mic : a.spnego = true → clientMic ≠ none → a'.clientMicVerified = true
  excused : a.spnego = true → clientMic = none → a.micRequired = true → output ≠ []

theorem checkMic_mics (h : Mics a) (hr : .received request ∈ a.log)
    (hm : ∀ m, mic = some m → micOf request = some m) (output : Bytes) :
    wp (checkMic env c output mic) (fun _ => Settled mic output a) (fun _ => Mics) a := by
  unfold checkMic
  rw [wp_bind, wp_get]
  rcases mic with _ | mic
  · simp only [wp_refuseIf]
    refine of_ite (fun _ => h) fun homit => ?_
    exact ⟨Later.refl h, by simp, fun _ _ hreq hnil => homit ⟨hreq, hnil⟩⟩
  · refine wp_mono (verifyMic_mics h hr (hm mic rfl)) (fun _ a1 h1 => ?_) (fun _ _ h1 => h1)
    exact ⟨h1.1, fun _ _ => h1.2, by simp⟩

theorem Settled.later {output : Bytes} {b d : Acceptor C W} (h : Settled mic output a b)
    (h' : Later b d) : Settled mic output a d :=
  ⟨h.toLater.trans h', fun hs hm => h'.verified (h.mic hs hm), h.excused⟩

theorem finalToken_mics (h : Mics a) (hr : .received request ∈ a.log)
    (hm : ∀ m, mic = some m → micOf request = some m) (output : Bytes) (reply : NegTokenResp) :
    wp (finalToken env c output mic reply) (fun _ => Settled mic output a) (fun _ => Mics) a := by
  unfold finalToken
  simp only [wp_bind, wp_get]
  by_cases hspnego : a.spnego = true
  · simp only [if_pos hspnego, wp_map]
    unfold finalResp ownMic restart
    simp only [wp_bind, wp_get]
    refine wp_mono (checkMic_mics h hr hm output) (fun _ a1 h1 => ?_) (fun _ _ h1 => h1)
    have hown : wp (if a1.micRequired = true ∨ mic ≠ none then some <$> call (Trace.getMic env c a1.mechTypesDer)
        else (pure reply.mechListMic : Outcome C W (Option Bytes)))
        (fun _ => Settled mic output a) (fun _ => Mics) a1 := by
      rw [wp_ite]
      refine of_ite (fun _ => ?_) fun _ => ?_
      · rw [wp_map]
        exact wp_mono (h1.mics.call (getMic_calls c _)) (fun _ _ h2 => h1.later h2) (fun _ _ h2 => h2)
      · exact h1
    refine wp_mono hown (fun own a2 h2 => ?_) (fun _ _ h2 => h2)
    rw [wp_ite]
    refine of_ite (fun _ => ?_) fun _ => ?_
    · exact wp_mono (h2.mics.call (reset_calls c)) (fun _ _ h3 => h2.later h3) (fun _ _ h3 => h3)
    · exact h2
  · simp only [if_neg hspnego]
    exact ⟨Later.refl h, fun hs => absurd hs hspnego, fun hs => absurd hs hspnego⟩

/-- The mechanism is established; without a MIC that is due, pubKeyAuth has to wait. -/
theorem finishNegotiation_mics (h : Mics a) (hr : .received request ∈ a.log)
    (hm : ∀ m, mic = some m → micOf request = some m) {output : Bytes}
    (hsep : Separate a.log → a.micRequired = true → mic = none → output ≠ [] → request.pubKeyAuth = none)
    (reply : NegTokenResp) : wp (finishNegotiation env cfg c request output mic reply)
      (fun _ => Mics) (fun _ => Mics) a := by
  unfold finishNegotiation
  simp only [wp_bind, wp_update]
  refine wp_mono (finalToken_mics h hr hm output reply) (fun negoToken a1 h1 => ?_) (fun _ _ h1 => h1)
  have h2 : Mics { a1 with phase := .pubKeyAuth c } :=
    { h1.mics with passed := fun hp => h1.mics.passed (hp.imp (by simp) id) }
  rcases hp : request.pubKeyAuth with _ | p
  · rcases negoToken with _ | token
    · exact h2
    · exact h2.send (by simp)
  · refine answerPubKeyAuth_mics h2 (fun hsep1 hreq => ?_) p negoToken
    have hreq' : a.micRequired = true := by rw [← h1.required]; exact hreq
    have hspnego := h.spnego hreq'
    by_cases hnone : mic = none
    · have := hsep (hsep1.mono h1.log) hreq' hnone (h1.excused hspnego hnone hreq')
      rw [this] at hp
      cases hp
    · exact h1.mic hspnego hnone

variable (env cfg) in
/-- A step of the mechanism right behind the request that caused it, where a MIC is due. -/
theorem stepped_mics (h : Mics a) (hr : .received request ∈ a.log)
    (hlast : a.micRequired = true → ∃ before, a.log = before ++ [.received request])
    (hm : ∀ m, mic = some m → micOf request = some m) (hnone : a.micRequired = true → mic = none → micOf request = none)
    (input : Bytes) (reply : NegTokenResp) {next : Step → Outcome C W Unit}
    (hnext : ∀ step a', Mics a' → wp (next step) (fun _ => Mics) (fun _ => Mics) a') :
    wp (do
      let answer ← call (Trace.step env c input)
      let step ← orReject "security mechanism rejected the client" answer
      if step.complete then finishNegotiation env cfg c request step.token mic reply else next step)
      (fun _ => Mics) (fun _ => Mics) a := by
  have h1 : Mics { a with trace := (Trace.step env c input a.trace).2 } := h.record (by simp) (by simp)
  simp only [wp_bind, call, wp_act]
  refine wp_orRefuse (fun step hstep => ?_) (fun _ _ => h1)
  have hlog : (Trace.step env c input a.trace).2.log = a.log ++ [.stepped c input (.ok step)] := by
    rw [← hstep]
    rfl
  rw [wp_ite]
  refine of_ite (fun hc => ?_) fun _ => ?_
  · refine finishNegotiation_mics h1 (mem_append_left _ hr) hm (fun hsep hreq hmic htoken => ?_) reply
    obtain ⟨before, hbefore⟩ := hlast hreq
    by_contra hauth
    have hsecond : SecondChoice before := by
      refine (secondChoice_snoc (e := .received request) (by simp)).mp ?_
      rw [← hbefore]
      exact h.required.mp hreq
    refine hsep before request c input step.token ?_ hsecond htoken hauth (hnone hreq hmic)
    change _ <+: (Trace.step env c input a.trace).2.log
    rw [hlog, hbefore, ← hc, append_assoc]
    exact prefix_rfl
  · exact hnext step _ h1

variable (env cfg) in
theorem negotiate_mics (h : Mics a) (hr : .received request ∈ a.log)
    (hlast : a.micRequired = true → ∃ before, a.log = before ++ [.received request]) :
    wp (negotiate env cfg c (request.negoTokens.headD []) request) (fun _ => Mics) (fun _ => Mics) a := by
  have hsend : ∀ (step : Step) (a' : Acceptor C W), Mics a' →
      wp (sendToken step) (fun _ => Mics) (fun _ => Mics) a' := by
    intro step a' h'
    unfold sendToken
    rw [wp_bind, wp_get, wp_update]
    exact h'.send (by simp)
  unfold negotiate mechInput
  simp only [wp_bind, wp_get]
  by_cases hspnego : a.spnego = true
  · simp only [if_pos hspnego, wp_bind]
    refine wp_orRefuse (fun next hnext => ?_) (fun _ _ => h)
    rcases next with init | resp
    · exact h
    · simp only [wp_bind, wp_refuseIf]
      refine of_ite (fun _ => h) fun _ => ?_
      rcases resp.responseToken with _ | input
      · exact h
      · have hof : micOf request = resp.mechListMic := by rw [micOf, hnext]
        have hm : ∀ m, resp.mechListMic = some m → micOf request = some m := fun m hm => by rw [hof, hm]
        have hstep := stepped_mics env cfg (c := c) h hr hlast hm (fun _ hn => by rw [hof, hn]) input {} hsend
        simpa only [wp_bind, wp_pure] using hstep
  · simp only [if_neg hspnego, wp_pure]
    have hm : ∀ m, (none : Option Bytes) = some m → micOf request = some m := by simp
    have hstep := stepped_mics env cfg (c := c) h hr hlast hm
      (fun hreq => absurd (h.spnego hreq) hspnego) (request.negoTokens.headD []) {} hsend
    simpa only [wp_bind] using hstep

theorem optimistic_mics (h : Mics a) (hr : .received request ∈ a.log)
    (hreq : a.micRequired = false) {init : NegTokenInit} (hinit : decode (request.negoTokens.headD []) = .ok
      (.init init))
    (reply : NegTokenResp) :
    wp (optimistic env cfg c init request reply) (fun _ => Mics) (fun _ => Mics) a := by
  unfold optimistic
  rcases init.mechToken with _ | token
  · exact h.send (by simp)
  · refine stepped_mics env cfg h hr (fun hreq' => ?_) (fun m hm => ?_) (fun hreq' => ?_) token reply (fun _ _ h' =>
    h'.send (by simp))
    · simp [hreq] at hreq'
    · rw [micOf, hinit]
      exact hm
    · simp [hreq] at hreq'

/-- No mechanism is selected, or the one that was is recorded. -/
theorem choose_secondChoice {log : List (Event C)} (h : ¬ SecondChoice log) (i : ℕ) (oid : Oid) (c : C) :
    SecondChoice (log ++ [.chose i oid c]) ↔ i ≠ 0 := by
  constructor
  · rintro ⟨j, oid', c', hmem, hj⟩
    rcases mem_append.mp hmem with hmem | hmem
    · exact absurd ⟨j, oid', c', hmem, hj⟩ h
    · cases mem_singleton.mp hmem
      exact hj
  · intro hi
    exact ⟨i, oid, c, by simp, hi⟩

theorem Mics.notSecond (h : Mics a) (hreq : a.micRequired = false) : ¬ SecondChoice a.log := by
  intro hsecond
  have := h.required.mpr hsecond
  simp [hreq] at this

/-- The client's first choice is selected. -/
theorem Mics.firstChoice (h : Mics a) (hreq : a.micRequired = false) {t : Trace C W} {oid : Oid}
    (ht : t.log = a.log ++ [.chose 0 oid c]) : Mics { a with trace := t, mech := some c } where
  required := by
    change a.micRequired = true ↔ SecondChoice t.log
    rw [ht, choose_secondChoice (h.notSecond hreq)]
    simp [hreq]
  spnego := h.spnego
  listed := by simp [hreq]
  verified := fun hv => by
    change Verified a.mechTypesDer t.log
    rw [ht]
    exact (h.verified hv).mono (prefix_append _ _)
  first := by
    change Separate t.log → MicFirst t.log
    rw [ht]
    intro hsep
    exact (h.first (hsep.mono (prefix_append _ _))).snoc (by simp)
  passed := by simp [hreq]

variable {before : List (Event C)}

theorem startSpnego_mics (h : Mics a) (hpass : ¬ Passed a) (hreq : a.micRequired = false) (hspnego : a.spnego = true)
    (hv : a.clientMicVerified = false) (hlast : a.log = before ++ [.received request]) {init : NegTokenInit}
    {token : Bytes} (htokens : request.negoTokens = [token]) (hinit : decode token = .ok (.init init)) :
    wp (startSpnego env cfg init request) (fun _ => Mics) (fun _ => Mics) a := by
  unfold startSpnego
  simp only [wp_bind, wp_update, call, wp_act]
  have hchoose := choose_log cfg init.mechTypes 0 a.trace
  have h0 : Mics { a with mechTypesDer := init.mechTypesDer } :=
    ⟨h.required, h.spnego, by simp [hreq], by simp [hv], h.first, h.passed⟩
  rcases hc : choose cfg 0 init.mechTypes a.trace with ⟨_ | ⟨c, i, oid⟩, t⟩
  · rw [hc] at hchoose
    simp only [wp_refuse]
    exact ⟨by simpa [log, hchoose] using h0.required, h.spnego, by simp [hreq], by simp [hv],
      by simpa [log, hchoose] using h0.first, by simp [hreq]⟩
  · rw [hc] at hchoose
    obtain ⟨hlog, -, hget⟩ := hchoose
    simp only [wp_bind, wp_update, wp_ite]
    by_cases hi : i ≠ 0
    · simp only [if_pos hi]
      have hlog' : t.log = a.log ++ [.chose i oid c] := hlog
      have h2 : Mics { a with
          mechTypesDer := init.mechTypesDer, trace := t, mech := some c, micRequired := true } := by
        refine ⟨?_, fun _ => hspnego, fun _ => ⟨init, i, hi, ?_, rfl⟩, by simp [hv], ?_, fun hp => absurd hp hpass⟩
        · change true = true ↔ SecondChoice t.log
          rw [hlog', choose_secondChoice (h.notSecond hreq)]
          simp [hi]
        · refine ⟨before, request, token, oid, c, ?_, htokens, hinit, by simpa using hget⟩
          change _ <+: t.log
          rw [hlog', hlast, append_assoc]
          exact prefix_rfl
        · change Separate t.log → MicFirst t.log
          rw [hlog']
          intro hsep
          exact (h.first (hsep.mono (prefix_append _ _))).snoc (by simp)
      exact h2.send (by simp)
    · simp only [if_neg hi]
      push Not at hi
      subst hi
      have h1 := h0.firstChoice hreq hlog
      refine optimistic_mics h1 ?_ hreq (by rw [htokens]; exact hinit) _
      change _ ∈ t.log
      rw [hlog]
      exact mem_append_left _ (by change _ ∈ a.log; rw [hlast]; simp)

variable (env cfg) in
theorem firstToken_mics (h : Mics a) (hpass : ¬ Passed a) (hreq : a.micRequired = false)
    (hv : a.clientMicVerified = false) (hlast : a.log = before ++ [.received request]) {token : Bytes}
    (htokens : request.negoTokens = [token]) :
    wp (firstToken env cfg token request) (fun _ => Mics) (fun _ => Mics) a := by
  unfold firstToken
  rw [wp_ite]
  refine of_ite (fun _ => ?_) fun _ => ?_
  · rw [wp_bind]
    refine wp_orRefuse (fun decoded hdecoded => ?_) (fun _ _ => h)
    rcases decoded with init | resp
    · simp only [wp_bind, wp_update]
      have h1 : Mics { a with spnego := true } := { h with spnego := fun _ => rfl }
      exact startSpnego_mics h1 hpass hreq rfl hv hlast htokens hdecoded
    · exact h
  · simp only [wp_bind, call, wp_act]
    have hchoose := choose_log cfg [ntlmOid] 0 a.trace
    rcases hc : choose cfg 0 [ntlmOid] a.trace with ⟨_ | ⟨c, i, oid⟩, t⟩
    · rw [hc] at hchoose
      exact ⟨by simpa [log, hchoose] using h.required, h.spnego, by simp [hreq], by simp [hv],
        by simpa [log, hchoose] using h.first, by simp [hreq]⟩
    · rw [hc] at hchoose
      obtain ⟨hlog, -, hget⟩ := hchoose
      have hi : i = 0 := by
        rcases i with _ | i
        · rfl
        · simp at hget
      subst hi
      simp only [wp_bind, wp_update]
      have h1 := h.firstChoice hreq hlog
      have hr : Event.received request ∈ ({ a with trace := t, mech := some c } : Acceptor C W).log := by
        change _ ∈ t.log
        rw [hlog]
        exact mem_append_left _ (by change _ ∈ a.log; rw [hlast]; simp)
      have hneg := negotiate_mics env cfg (c := c) h1 hr (by simp [hreq])
      rwa [htokens] at hneg

/-- Before a mechanism is chosen nothing is due and nothing verified. -/
theorem Mics.untouched (h : Mics a) (hown : ∀ e ∈ a.log, ∀ c, e.context = some c → a.mech = some c)
    (hm : a.mech = none) : a.micRequired = false ∧ a.clientMicVerified = false := by
  constructor
  · by_contra hreq
    obtain ⟨i, oid, c, hmem, -⟩ := h.required.mp (by simpa using hreq)
    rw [hown _ hmem c rfl] at hm
    cases hm
  · by_contra hv
    obtain ⟨c, mic, request, -, -, hmem⟩ := h.verified (by simpa using hv)
    rw [hown _ hmem c rfl] at hm
    cases hm

theorem handleNegotiate_mics (h : Mics a) (hpass : ¬ Passed a)
    (hown : ∀ e ∈ a.log, ∀ c, e.context = some c → a.mech = some c) (hlast : a.log = before ++ [.received request]) :
    wp (handleNegotiate env cfg request) (fun _ => Mics) (fun _ => Mics) a := by
  unfold handleNegotiate
  simp only [wp_bind, wp_refuseIf, wp_get]
  refine of_ite (fun _ => h) fun hone => ?_
  refine of_ite (fun _ => h) fun _ => ?_
  rcases hm : a.mech with _ | c
  · obtain ⟨hreq, hv⟩ := h.untouched hown hm
    push Not at hone
    obtain ⟨token, htokens⟩ := length_eq_one_iff.mp hone
    have hfirst := firstToken_mics env cfg h hpass hreq hv hlast htokens
    rwa [htokens]
  · exact negotiate_mics env cfg h (by rw [hlast]; simp) (fun _ => ⟨before, hlast⟩)

/-! ### The acceptor's runs -/

theorem dispatch_mics (h : Mics a) (hi : a.status = .inProgress)
    (hown : ∀ e ∈ a.log, ∀ c, e.context = some c → a.mech = some c) (hlast : a.log = before ++ [.received request]) :
    wp (dispatch env cfg request) (fun _ => Mics) (fun _ => Mics) a := by
  have hr : Event.received request ∈ a.log := by simp [hlast]
  unfold dispatch
  rw [wp_bind, wp_get]
  rcases hp : a.phase with _ | c | c | _
  · exact handleNegotiate_mics h (by simp [Passed, hp, hi]) hown hlast
  · exact handlePubKeyAuth_mics h hr
  · exact handleCredentials_mics h hp request
  · exact h

variable (env cfg) in
theorem handle_mics (h : Mics a) (hi : a.status = .inProgress)
    (hown : ∀ e ∈ a.log, ∀ c, e.context = some c → a.mech = some c) (request : TsRequest) :
    wp (handle env cfg request) (fun _ => Mics) (fun _ => Mics) a := by
  have h1 : Mics { a with trace := a.trace.note (.received request) } := h.record (by simp) (by simp)
  have hown1 : ∀ e ∈ a.log ++ [.received request], ∀ c, e.context = some c → a.mech = some c := by
    intro e he c hc
    rcases mem_append.mp he with he | he
    · exact hown e he c hc
    · cases mem_singleton.mp he
      cases hc
  have hagree : wp (agreeVersion cfg request)
      (fun _ a' => Mics a' ∧ a'.log = a.log ++ [.received request] ∧ a'.mech = a.mech ∧
        a'.status = a.status) (fun _ => Mics)
      { a with trace := a.trace.note (.received request) } := by
    unfold agreeVersion
    simp only [wp_bind, wp_get, wp_ite, wp_refuseIf, wp_update]
    by_cases hp : a.peerVersion = 0
    · simp only [if_pos hp]
      exact of_ite (fun _ => h1) fun _ => ⟨{ h1 with }, rfl, trivial, trivial⟩
    · simp only [if_neg hp]
      exact of_ite (fun _ => h1) fun _ => ⟨h1, rfl, trivial, trivial⟩
  unfold handle
  simp only [wp_bind, wp_update]
  refine wp_mono hagree (fun _ a1 h2 => ?_) (fun _ _ h2 => h2)
  obtain ⟨h2, hlog, hmech, hstatus⟩ := h2
  rcases request.errorCode with _ | code
  · simp only [wp_bind, wp_update]
    have h3 : Mics { a1 with nonce := request.clientNonce <|> a1.nonce } := { h2 with }
    refine dispatch_mics h3 (hstatus.trans hi) ?_ hlog
    change ∀ e ∈ a1.log, ∀ c, e.context = some c → a1.mech = some c
    rw [hlog, hmech]
    exact hown1
  · exact h2

theorem Mics.fail (h : Mics a) (reason : String) : Mics (a.fail reason) := by
  have hf : Mics { a with status := .failed, phase := .done, failure := reason, credentials := none } :=
    { h with passed := fun hp => by simp [Passed] at hp }
  unfold Acceptor.fail
  by_cases hv : a.version = 3 ∨ a.version = 4 ∨ a.version = 6
  · simp only [if_pos hv]
    exact hf.send (by simp)
  · simp only [if_neg hv]
    exact hf

theorem take_mics (h : Mics a) (hi : a.status = .inProgress) (hown : ∀ e ∈ a.log, ∀ c, e.context = some c →
    a.mech = some c) (bytes : Bytes) :
    Mics (take env cfg bytes a) := by
  unfold take
  rcases decodeTsRequest bytes with e | request
  · exact h.fail _
  · have hspec := handle_mics env cfg h hi hown request
    unfold wp at hspec
    simp only [step]
    rcases hx : exec (handle env cfg request) a with ⟨reason | _, a'⟩
    · rw [hx] at hspec
      exact Mics.fail hspec reason
    · rw [hx] at hspec
      exact hspec

theorem receive_mics {b : Framing.Buffered UInt8 (Acceptor C W)} (hs : Sound env cfg b.session) (h : Mics b.session)
    (bytes : Bytes) : Mics (receive env cfg b bytes).session := by
  have hboth := Framing.receive_induction (framing_lawful env cfg) (P := fun a => Sound env cfg a ∧ Mics a)
    (fun s rest hs _ => ?_) (fun s rest hs _ => ?_) (fun s e hs => ⟨fail_sound hs.1.ordered hs.1.own hs.1.queued _, hs.2.fail _⟩)
    (fun s frame hs hopen => ?_) b bytes ⟨hs, h⟩
  · exact hboth.2
  · simp only [framing]
    by_cases hd : s.status = .succeeded
    · rw [if_pos hd]
      exact ⟨hs.1.withRemaining rest, { hs.2 with }⟩
    · rwa [if_neg hd]
  · simp only [framing]
    by_cases hd : s.status = .succeeded
    · rw [if_pos hd]
      exact ⟨hs.1.withRemaining _, { hs.2 with }⟩
    · rwa [if_neg hd]
  · have hi : s.status = .inProgress := by simpa [framing] using hopen
    exact ⟨take_sound hs.1 hi frame, take_mics hs.2 hi hs.1.own frame⟩

theorem run_mics (env : Provider C W) (cfg : AcceptorConfig C W) (w : W) (calls : List Call) :
    Mics (run env cfg w calls).session := by
  induction calls using List.reverseRecOn with
  | nil =>
    refine ⟨?_, by simp [run, new], by simp [run, new], by simp [run, new],
      fun _ before message hb => ?_, by simp [run, new]⟩
    · simp [run, new, log, SecondChoice]
    · simp [run, new, log] at hb
  | append_singleton calls call ih =>
    have hs := run_sound env cfg w calls
    unfold run at ih hs ⊢
    rw [foldl_append]
    rcases call with bytes | _ | _ | _
    · exact receive_mics hs ih bytes
    all_goals exact { ih with }

end Acceptor

end Credssp
end Auth
end Farland
