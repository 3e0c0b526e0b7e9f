/-
# The mechListMIC exchange

RFC 4178 5: where another mechanism than the client's first choice was
selected, each side has to verify the other's MIC over the list of mechanisms,
so that nobody in between can strike entries off it. What that means for the
log of an acceptor (`MicFirst`), and which of its runs keep a TSRequest that
brings the mechanism to its last token apart from one that brings pubKeyAuth
(`Separate`).
-/
import Farland.Auth.SecurityContext

namespace Farland
namespace Auth
namespace Credssp

open Spnego Handler List

section Logs

variable {C : Type}

/-- The mechListMIC a TSRequest brings. -/
def micOf (request : TsRequest) : Option Bytes :=
  match decode (request.negoTokens.headD []) with
  | .ok (.init token) => token.mechListMic
  | .ok (.resp token) => token.mechListMic
  | .error _ => none

/-- A mechanism was selected that is not the first of the client's list. -/
def SecondChoice (log : List (Event C)) : Prop := ∃ i oid c, .chose i oid c ∈ log ∧ i ≠ 0

/-- The list whose entry `i` was selected, as it came in. -/
def Selected (init : NegTokenInit) (i : ℕ) (log : List (Event C)) : Prop := ∃ before request token oid c,
  before ++ [.received request, .chose i oid c] <+: log ∧ request.negoTokens = [token] ∧
    decode token = .ok (.init init) ∧ init.mechTypes[i]? = some oid

/-- The other side's MIC verified over the DER of a list. -/
def Verified (der : Bytes) (log : List (Event C)) : Prop := ∃ c mic request,
  .received request ∈ log ∧ micOf request = some mic ∧ .verifiedMic c der mic (.ok ()) ∈ log

/-- The list was verified from which a later entry than the first was selected. -/
def ListVerified (log : List (Event C)) : Prop :=
  ∃ init i, i ≠ 0 ∧ Selected init i log ∧ Verified init.mechTypesDer log

/-- No pubKeyAuth goes out for a second choice before the list was verified. -/
def MicFirst (log : List (Event C)) : Prop := ∀ before message, before ++ [.sent message] <+: log →
  message.pubKeyAuth ≠ none → SecondChoice before → ListVerified before

/-- No TSRequest without a MIC brings both the mechanism to its last token and pubKeyAuth. -/
def Separate (log : List (Event C)) : Prop := ∀ before request c input token,
  before ++ [.received request, .stepped c input (.ok ⟨token, true⟩)] <+: log → SecondChoice before → token ≠ [] →
    request.pubKeyAuth ≠ none → micOf request ≠ none

variable {log : List (Event C)} {log' : List (Event C)}

theorem SecondChoice.mono (h : SecondChoice log) (hp : log <+: log') : SecondChoice log' := by
  obtain ⟨i, oid, c, hmem, hi⟩ := h
  exact ⟨i, oid, c, hp.subset hmem, hi⟩

theorem Selected.mono {init : NegTokenInit} {i : ℕ} (h : Selected init i log) (hp : log <+: log') :
    Selected init i log' := by
  obtain ⟨before, request, token, oid, c, hb, h⟩ := h
  exact ⟨before, request, token, oid, c, hb.trans hp, h⟩

theorem Verified.mono {der : Bytes} (h : Verified der log) (hp : log <+: log') : Verified der log' := by
  obtain ⟨c, mic, request, hr, hm, hv⟩ := h
  exact ⟨c, mic, request, hp.subset hr, hm, hp.subset hv⟩

theorem Separate.mono (h : Separate log') (hp : log <+: log') : Separate log :=
  fun before request c input token hb => h before request c input token (hb.trans hp)

/-- Which event is not a choice of a mechanism. -/
theorem secondChoice_snoc {e : Event C} (he : ∀ i oid c, e ≠ .chose i oid c) :
    SecondChoice (log ++ [e]) ↔ SecondChoice log := by
  constructor
  · rintro ⟨i, oid, c, hmem, hi⟩
    rcases mem_append.mp hmem with hmem | hmem
    · exact ⟨i, oid, c, hmem, hi⟩
    · exact absurd (mem_singleton.mp hmem).symm (he i oid c)
  · intro h
    exact h.mono (prefix_append _ _)

theorem MicFirst.snoc (h : MicFirst log) {e : Event C}
    (he : ∀ m, e = .sent m → m.pubKeyAuth ≠ none → SecondChoice log → ListVerified log) : MicFirst (log ++ [e]) := by
  intro before message hb hauth hsecond
  rcases prefix_concat_iff.mp hb with heq | hb
  · obtain ⟨rfl, hlast⟩ := append_inj' heq rfl
    exact he message (singleton_injective hlast).symm hauth hsecond
  · exact h before message hb hauth hsecond

/-- The token left when a step completes. -/
def Event.leftToken : Event C → Bytes
  | .stepped _ _ (.ok s) => if s.complete then s.token else []
  | _ => []

/-- A mechanism whose last step leaves nothing to send, as NTLM's does, keeps every run apart. -/
theorem separate_of_leftToken (h : ∀ e ∈ log, e.leftToken = []) : Separate log := by
  intro before request c input token hb _ htoken
  have := h (.stepped c input (.ok ⟨token, true⟩)) (hb.subset (by simp))
  exact absurd this htoken

def Event.verifies : Event C → Bool
  | .verifiedMic _ _ _ _ => true
  | _ => false

/-- What goes out for a second choice stands behind a call of `verify_mic`. -/
theorem MicFirst.verifies (h : MicFirst log) {i : ℕ} {m : TsRequest} (hi : log[i]? = some (.sent m))
    (hm : m.pubKeyAuth ≠ none) (hs : SecondChoice (log.take i)) : ∃ e ∈ log.take i, e.verifies = true := by
  have hpre : log.take i ++ [.sent m] <+: log := by
    have htake : log.take (i + 1) = log.take i ++ [.sent m] := by rw [take_add_one, hi]; rfl
    rw [← htake]
    exact take_prefix _ _
  obtain ⟨init, j, -, -, c, mic, request, -, -, hmem⟩ := h _ m hpre hm hs
  exact ⟨_, hmem, rfl⟩

end Logs

/-- A call on a security context. -/
def Calls {C W α : Type} (f : Trace C W → α × Trace C W) : Prop := ∀ t, ∃ w e, (f t).2 = t.record w e ∧
  (∀ i oid c, e ≠ .chose i oid c) ∧ (∀ m, e ≠ .sent m) ∧ ∀ r, e ≠ .received r

section Calls

variable {C W : Type} {env : Provider C W}

theorem step_calls (c : C) (input : Bytes) : Calls (Trace.step env c input) :=
  fun _ => ⟨_, _, rfl, by simp, by simp, by simp⟩

theorem unwrap_calls (c : C) (p : Bytes) : Calls (Trace.unwrap env c p) :=
  fun _ => ⟨_, _, rfl, by simp, by simp, by simp⟩

theorem wrap_calls (c : C) (p : Bytes) : Calls (Trace.wrap env c p) :=
  fun _ => ⟨_, _, rfl, by simp, by simp, by simp⟩

theorem getMic_calls (c : C) (m : Bytes) : Calls (Trace.getMic env c m) :=
  fun _ => ⟨_, _, rfl, by simp, by simp, by simp⟩

theorem reset_calls (c : C) : Calls (Trace.resetCipherState env c) :=
  fun _ => ⟨_, _, rfl, by simp, by simp, by simp⟩

end Calls

end Credssp
end Auth
end Farland
