/-
# The monitor

The monitor's side of one connection (`MonitorService` of `privsep.cpp`):
it answers the verification requests of the sandboxed network process with
the real verifier and the real Kerberos context, and accepts an NLA identity
only if it established that identity itself. The verifier and the context are
outside: what they would answer during one call is an argument of the call
(`Answers`), so a run gives them any behaviour whatever. `handle` is `none`
where an assertion of `encode` fails.

The attempt counter is a 32-bit number that is raised also when the budget is
spent, so the budget holds for the first 2^32 - 1 requests only.

Key theorems: `run_verified`, `attempts_wrap`, `run_isSome_iff`,
`abort_on_long_principal`.
-/
import Farland.Server.Privsep

namespace Farland
namespace Server
namespace Privsep

open List Option Nat Bool

/-- One step of a security context. -/
structure Step where
  token : List UInt8
  complete : Bool
  deriving DecidableEq

/-- What the verifier, the Kerberos factory and the Kerberos context answer
if they are asked during one call. -/
structure Answers where
  sessionBaseKey : Option (List.Vector UInt8 16) := none
  verifyPassword : Bool := false
  makesContext : Bool := false
  step : Option Step := none
  identity : Identity := ⟨[], []⟩
  wrap : List UInt8 := []
  unwrap : Option (List UInt8) := none
  getMic : List UInt8 := []
  verifyMic : Bool := false

/-- One use of the verifier, or one step of the Kerberos context, with what
came of it. -/
inductive Consulted where
  | sessionBaseKey (user domain : Text) (key : Option (List.Vector UInt8 16))
  | verifyPassword (user domain : Text) (ok : Bool)
  | kerberosStep (step : Option Step) (identity : Identity)

/-- A consultation that establishes an identity. -/
def Consulted.Establishes (i : Identity) : Consulted → Prop
  | .sessionBaseKey user domain key => i = ⟨user, domain⟩ ∧ key.isSome
  | .verifyPassword _ _ _ => False
  | .kerberosStep step identity => i = identity ∧ ∃ token, step = some ⟨token, true⟩

structure MonitorService where
  /-- Kerberos is served. -/
  kerberos : Bool := false
  /-- The Kerberos context exists. -/
  kerberosContext : Bool := false
  maxAttempts : ℕ := 8
  attempts : ℕ := 0
  /-- Users this service verified, as sent. -/
  verified : List Identity := []
  reported : Bool := false
  authenticated : Option Negotiation := none

/-- What a call leaves behind. -/
structure Outcome where
  service : MonitorService
  reply : Result (Option (List UInt8))
  consulted : List Consulted := []

namespace MonitorService

/-- The context's step, within the budget. -/
def kerberosStep (s : MonitorService) (answers : Answers) : MonitorService × KerberosResponse × List Consulted :=
  match answers.step with
  | none => (s, {}, [.kerberosStep none answers.identity])
  | some step =>
    if step.complete then
      ({ s with verified := answers.identity :: s.verified },
        { ok := true, data := step.token, complete := true
          user := answers.identity.user, domain := answers.identity.domain },
        [.kerberosStep (some step) answers.identity])
    else (s, { ok := true, data := step.token }, [.kerberosStep (some step) answers.identity])

variable (s : MonitorService)

/-- The operations on the context. -/
def kerberosOp (op : KerberosOp) (answers : Answers) :
    MonitorService × KerberosResponse × List Consulted :=
  match op with
  | .step => s.kerberosStep answers
  | .wrap => (s, if answers.wrap = [] then {} else { ok := true, data := answers.wrap }, [])
  | .unwrap =>
    (s, match answers.unwrap with
      | none => {}
      | some plaintext => { ok := true, data := plaintext }, [])
  | .getMic => (s, if answers.getMic = [] then {} else { ok := true, data := answers.getMic }, [])
  | .verifyMic => (s, { ok := answers.verifyMic }, [])

def handleKerberos (request : KerberosRequest) (answers : Answers) :
    MonitorService × Result KerberosResponse × List Consulted :=
  if s.kerberos = false then (s, .ok {}, [])
  else
    let s := if request.op = .step ∧ s.kerberosContext = false then { s with kerberosContext := answers.makesContext }
      else s
    if s.kerberosContext = false then
      (s, if request.op = .step then .ok {} else fail .invalidValue "a Kerberos operation before the context exists" 0,
        [])
    else
      let (s, response, consulted) := s.kerberosOp request.op answers
      (s, .ok response, consulted)

/-- A framed reply, unless an assertion of `encode` fails. -/
def replyWith (message : Message) (consulted : List Consulted) : Option Outcome := do
  let reply ← encode message
  pure { service := s, reply := .ok (some reply), consulted }

/-- The counter after one more request: `++attempts_` on a 32-bit number. -/
def raised : MonitorService := { s with attempts := (s.attempts + 1) % 2 ^ 32 }

def handleAuthenticated (negotiation : Negotiation) : Outcome :=
  if s.reported then { service := s, reply := fail .invalidValue "pre-authentication reported twice" 0 }
  else
    let s := { s with reported := true }
    if isNla negotiation.selectedProtocol then
      if ∃ i ∈ s.verified, negotiation.identity = some i then
        { service := { s with authenticated := some negotiation }, reply := .ok none }
      else
        { service := s
          reply := fail .invalidValue "network process claims an identity the monitor did not verify" 0 }
    else if negotiation.identity.isSome then
      { service := s, reply := fail .invalidValue "identity reported for a connection without NLA" 0 }
    else { service := { s with authenticated := some negotiation }, reply := .ok none }

/-- Handles one message of the network process. -/
def handleMessage (message : Message) (answers : Answers) : Option Outcome :=
  match message with
  | .verifyNtlmRequest user domain _ _ =>
    let s := s.raised
    if s.attempts > s.maxAttempts then s.replyWith (.verifyNtlmResponse none) []
    else
      let s := match answers.sessionBaseKey with
        | some _ => { s with verified := ⟨user, domain⟩ :: s.verified }
        | none => s
      s.replyWith (.verifyNtlmResponse answers.sessionBaseKey) [.sessionBaseKey user domain answers.sessionBaseKey]
  | .verifyPasswordRequest user domain _ =>
    let s := s.raised
    if s.attempts > s.maxAttempts then s.replyWith (.verifyPasswordResponse false) []
    else
      s.replyWith (.verifyPasswordResponse answers.verifyPassword) [.verifyPassword user domain answers.verifyPassword]
  | .kerberosRequest request =>
    let s := if request.op = .step then s.raised else s
    if request.op = .step ∧ s.attempts > s.maxAttempts then s.replyWith (.kerberosResponse {}) []
    else
      match s.handleKerberos request answers with
      | (s, .ok response, consulted) => s.replyWith (.kerberosResponse response) consulted
      | (s, .error e, consulted) => some { service := s, reply := .error e, consulted }
  | .authenticated negotiation => some (s.handleAuthenticated negotiation)
  | .verifyNtlmResponse _ | .verifyPasswordResponse _ | .kerberosResponse _ =>
    some { service := s, reply := fail .invalidValue "unexpected privsep message from the network process" 0 }

def handle (frame : List UInt8) (answers : Answers) : Option Outcome :=
  match decode frame with
  | .error e => some { service := s, reply := .error e }
  | .ok message => s.handleMessage message answers

/-- `take_authenticated`. -/
def takeAuthenticated : MonitorService × Option Negotiation :=
  ({ s with authenticated := none }, s.authenticated)

/-! ### Runs -/

inductive Event where
  | handle (frame : List UInt8) (answers : Answers)
  | takeAuthenticated

/-- What a run shows: who was consulted and which negotiations came out. -/
inductive Shown where
  | consulted (c : Consulted)
  | yielded (n : Negotiation)

def event : Event → Option (MonitorService × List Shown)
  | .handle frame answers => do
    let o ← s.handle frame answers
    pure (o.service, o.consulted.map .consulted)
  | .takeAuthenticated => pure (s.takeAuthenticated.1, (s.takeAuthenticated.2.map .yielded).toList)

/-- A run and what it shows, in order; `none` once an assertion fails. -/
def run (s : MonitorService) : List Event → Option (MonitorService × List Shown)
  | [] => some (s, [])
  | e :: es => do
    let (s, shown) ← s.event e
    let (s, rest) ← s.run es
    pure (s, shown ++ rest)

/-- The requests that spend from the budget. -/
def Spends : Message → Bool
  | .verifyNtlmRequest _ _ _ _ | .verifyPasswordRequest _ _ _ => true
  | .kerberosRequest request => request.op == .step
  | _ => false

def Event.spends : Event → Bool
  | .handle frame _ => match decode frame with
    | .ok message => Spends message
    | .error _ => false
  | .takeAuthenticated => false

/-! ### What one call can do -/

/-- A negotiation the monitor may let in, given the identities it knows. -/
def Admits (known : Identity → Prop) (n : Negotiation) : Prop :=
  if isNla n.selectedProtocol then ∃ i, n.identity = some i ∧ known i else n.identity = none

/-- The effect of one message. -/
structure Spec (s : MonitorService) (message : Message) (o : Outcome) : Prop where
  maxAttempts : o.service.maxAttempts = s.maxAttempts
  attempts : o.service.attempts = if Spends message then (s.attempts + 1) % 2 ^ 32 else s.attempts
  consulted : o.consulted = [] ∨
    ∃ c, o.consulted = [c] ∧ Spends message = true ∧ o.service.attempts ≤ s.maxAttempts
  verified : ∀ i ∈ o.service.verified, i ∈ s.verified ∨ ∃ c ∈ o.consulted, c.Establishes i
  reported : o.service.reported = s.reported ∧ o.service.authenticated = s.authenticated ∨
    s.reported = false ∧ o.service.reported = true ∧ (o.service.authenticated = s.authenticated ∨
      ∃ n, o.service.authenticated = some n ∧ Admits (· ∈ s.verified) n)

variable {s : MonitorService}

theorem replyWith_some {message : Message} {consulted : List Consulted} {o : Outcome}
    (h : s.replyWith message consulted = some o) : o.service = s ∧ o.consulted = consulted := by
  unfold replyWith at h
  cases he : encode message with
  | none =>
    rw [he] at h
    cases h
  | some reply =>
    rw [he] at h
    cases h
    exact ⟨rfl, rfl⟩

/-- What a Kerberos request changes, behind the attempt counter. -/
theorem handleKerberos_spec (s : MonitorService) (request : KerberosRequest) (answers : Answers) :
    (s.handleKerberos request answers).1.maxAttempts = s.maxAttempts ∧
      (s.handleKerberos request answers).1.attempts = s.attempts ∧
      (s.handleKerberos request answers).1.reported = s.reported ∧
      (s.handleKerberos request answers).1.authenticated = s.authenticated ∧
      ((s.handleKerberos request answers).2.2 = [] ∨
        request.op = .step ∧ ∃ c, (s.handleKerberos request answers).2.2 = [c]) ∧
      ∀ i ∈ (s.handleKerberos request answers).1.verified, i ∈ s.verified ∨
        ∃ c ∈ (s.handleKerberos request answers).2.2, c.Establishes i := by
  unfold handleKerberos
  by_cases hk : s.kerberos = false
  · rw [if_pos hk]
    exact ⟨rfl, rfl, rfl, rfl, .inl rfl, fun i hi => .inl hi⟩
  rw [if_neg hk]
  have hcontext : ∃ s' : MonitorService, (if request.op = .step ∧ s.kerberosContext = false then
      { s with kerberosContext := answers.makesContext } else s) = s' ∧ s'.maxAttempts = s.maxAttempts ∧
      s'.attempts = s.attempts ∧ s'.reported = s.reported ∧ s'.authenticated = s.authenticated ∧
      s'.verified = s.verified := by
    split_ifs
    all_goals exact ⟨_, rfl, rfl, rfl, rfl, rfl, rfl⟩
  obtain ⟨s', hs', h1, h2, h3, h4, h5⟩ := hcontext
  rw [hs']
  by_cases hc : s'.kerberosContext = false
  · rw [if_pos hc]
    exact ⟨h1, h2, h3, h4, .inl rfl, fun i hi => .inl (h5 ▸ hi)⟩
  rw [if_neg hc]
  unfold kerberosOp
  cases hop : request.op with
  | step =>
    unfold kerberosStep
    cases hstep : answers.step with
    | none => exact ⟨h1, h2, h3, h4, .inr ⟨rfl, _, rfl⟩, fun i hi => .inl (h5 ▸ hi)⟩
    | some st =>
      dsimp only
      by_cases hcomplete : st.complete = true
      · rw [if_pos hcomplete]
        refine ⟨h1, h2, h3, h4, .inr ⟨rfl, _, rfl⟩, fun i hi => ?_⟩
        rcases mem_cons.mp hi with rfl | hi
        · refine .inr ⟨_, mem_singleton_self _, rfl, st.token, ?_⟩
          rw [← hcomplete]
        · exact .inl (h5 ▸ hi)
      · rw [if_neg hcomplete]
        exact ⟨h1, h2, h3, h4, .inr ⟨rfl, _, rfl⟩, fun i hi => .inl (h5 ▸ hi)⟩
  | wrap | unwrap | getMic | verifyMic => exact ⟨h1, h2, h3, h4, .inl rfl, fun i hi => .inl (h5 ▸ hi)⟩

theorem handleAuthenticated_spec (s : MonitorService) (n : Negotiation) :
    Spec s (.authenticated n) (s.handleAuthenticated n) := by
  unfold handleAuthenticated
  by_cases hr : s.reported = true
  · rw [if_pos hr]
    exact ⟨rfl, rfl, .inl rfl, fun i hi => .inl hi, .inl ⟨rfl, rfl⟩⟩
  rw [if_neg hr]
  rw [not_eq_true] at hr
  by_cases hn : isNla n.selectedProtocol = true
  · rw [if_pos hn]
    by_cases hv : ∃ i ∈ s.verified, n.identity = some i
    · rw [if_pos hv]
      obtain ⟨i, hi, hid⟩ := hv
      refine ⟨rfl, rfl, .inl rfl, fun i hi => .inl hi, .inr ⟨hr, rfl, .inr ⟨n, rfl, ?_⟩⟩⟩
      rw [Admits, if_pos hn]
      exact ⟨i, hid, hi⟩
    · rw [if_neg hv]
      exact ⟨rfl, rfl, .inl rfl, fun i hi => .inl hi, .inr ⟨hr, rfl, .inl rfl⟩⟩
  · rw [if_neg hn]
    by_cases hid : n.identity.isSome = true
    · rw [if_pos hid]
      exact ⟨rfl, rfl, .inl rfl, fun i hi => .inl hi, .inr ⟨hr, rfl, .inl rfl⟩⟩
    · rw [if_neg hid]
      refine ⟨rfl, rfl, .inl rfl, fun i hi => .inl hi, .inr ⟨hr, rfl, .inr ⟨n, rfl, ?_⟩⟩⟩
      rw [Admits, if_neg hn]
      simpa using hid

variable {answers : Answers}

/-- An attempt beyond the limit, whose reply says no. -/
theorem spec_of_refused {message reply : Message} {o : Outcome} (hm : Spends message = true)
    (h : s.raised.replyWith reply [] = some o) : Spec s message o := by
  obtain ⟨hs, hc⟩ := replyWith_some h
  refine ⟨by rw [hs]; rfl, by rw [hs, if_pos hm]; rfl, .inl hc, ?_, .inl ⟨by rw [hs]; rfl, by rw [hs]; rfl⟩⟩
  rw [hs]
  exact fun i hi => .inl hi

/-- An attempt that is checked, and may establish an identity. -/
theorem spec_of_checked {message reply : Message} {c : Consulted} {verified : List Identity} {o : Outcome}
    (hm : Spends message = true) (ha : ¬ s.raised.attempts > s.raised.maxAttempts)
    (hverified : ∀ i ∈ verified, i ∈ s.verified ∨ c.Establishes i)
    (h : { s.raised with verified }.replyWith reply [c] = some o) : Spec s message o := by
  obtain ⟨hs, hc⟩ := replyWith_some h
  refine ⟨by rw [hs]; rfl, by rw [hs, if_pos hm]; rfl, .inr ⟨c, hc, hm, ?_⟩, ?_,
    .inl ⟨by rw [hs]; rfl, by rw [hs]; rfl⟩⟩
  · rw [hs]
    exact not_lt.mp ha
  · rw [hs, hc]
    exact fun i hi => (hverified i hi).imp id fun he => ⟨c, mem_singleton_self _, he⟩

/-- **What one message can do.** -/
theorem handleMessage_spec {message : Message} {o : Outcome} (h : s.handleMessage message answers = some o) :
    Spec s message o := by
  cases message with
  | verifyNtlmRequest user domain challenge response =>
    unfold handleMessage at h
    dsimp only at h
    by_cases ha : s.raised.attempts > s.raised.maxAttempts
    · rw [if_pos ha] at h
      exact spec_of_refused rfl h
    · rw [if_neg ha] at h
      cases hk : answers.sessionBaseKey with
      | none =>
        rw [hk] at h
        exact spec_of_checked rfl ha (fun i hi => .inl hi) h
      | some key =>
        rw [hk] at h
        refine spec_of_checked rfl ha (fun i hi => ?_) h
        rcases mem_cons.mp hi with rfl | hi
        · exact .inr ⟨rfl, rfl⟩
        · exact .inl hi
  | verifyPasswordRequest user domain password =>
    unfold handleMessage at h
    dsimp only at h
    by_cases ha : s.raised.attempts > s.raised.maxAttempts
    · rw [if_pos ha] at h
      exact spec_of_refused rfl h
    · rw [if_neg ha] at h
      exact spec_of_checked rfl ha (fun i hi => .inl hi) h
  | kerberosRequest request =>
    unfold handleMessage at h
    dsimp only at h
    generalize hs1 : (if request.op = .step then s.raised else s) = s1 at h
    have hfields : s1.maxAttempts = s.maxAttempts ∧ s1.verified = s.verified ∧ s1.reported = s.reported ∧
        s1.authenticated = s.authenticated ∧
        s1.attempts = if Spends (.kerberosRequest request) then (s.attempts + 1) % 2 ^ 32 else s.attempts := by
      rw [← hs1]
      by_cases hop : request.op = .step
      · simp [hop, Spends, raised]
      · simp [hop, Spends]
    obtain ⟨h1, h2, h3, h4, h5⟩ := hfields
    by_cases ha : request.op = .step ∧ s1.attempts > s1.maxAttempts
    · rw [if_pos ha] at h
      obtain ⟨hs, hc⟩ := replyWith_some h
      refine ⟨by rw [hs, h1], by rw [hs, h5], .inl hc, ?_, .inl ⟨by rw [hs, h3], by rw [hs, h4]⟩⟩
      rw [hs, h2]
      exact fun i hi => .inl hi
    · rw [if_neg ha] at h
      obtain ⟨g1, g2, g3, g4, g5, g6⟩ := handleKerberos_spec s1 request answers
      have hout : o.service = (s1.handleKerberos request answers).1 ∧
          o.consulted = (s1.handleKerberos request answers).2.2 := by
        generalize hg : s1.handleKerberos request answers = g at h
        obtain ⟨s2, response, consulted⟩ := g
        cases response with
        | ok response => exact replyWith_some h
        | error e =>
          cases h
          exact ⟨rfl, rfl⟩
      obtain ⟨hs, hc⟩ := hout
      refine ⟨by rw [hs, g1, h1], by rw [hs, g2, h5], ?_, ?_, .inl ⟨by rw [hs, g3, h3], by rw [hs, g4, h4]⟩⟩
      · rw [hc]
        rcases g5 with g5 | ⟨hop, c, g5⟩
        · exact .inl g5
        · refine .inr ⟨c, g5, by simp [Spends, hop], ?_⟩
          rw [hs, g2, ← h1]
          by_contra hlt
          exact ha ⟨hop, not_le.mp hlt⟩
      · rw [hs, hc, ← h2]
        exact g6
  | authenticated n =>
    cases h
    exact handleAuthenticated_spec s n
  | verifyNtlmResponse _ | verifyPasswordResponse _ | kerberosResponse _ =>
    cases h
    exact ⟨rfl, rfl, .inl rfl, fun i hi => .inl hi, .inl ⟨rfl, rfl⟩⟩

/-! ### Whole runs -/

variable (past : List Shown)

/-- The identities a run has established. -/
def Known (i : Identity) : Prop := ∃ c, .consulted c ∈ past ∧ c.Establishes i

/-- How often the verifier and the Kerberos context were consulted. -/
def consultations : ℕ :=
  past.countP fun
    | .consulted _ => true
    | .yielded _ => false

/-- How many negotiations came out. -/
def yields : ℕ :=
  past.countP fun
    | .consulted _ => false
    | .yielded _ => true

/-- Every negotiation came out after the identity it carries was established. -/
def Ordered : Prop :=
  ∀ before n after, past = before ++ .yielded n :: after → Admits (Known before) n

/-- The invariant of a run: the monitor knows what it has established, and
reports once. -/
structure Inv (s : MonitorService) (past : List Shown) : Prop where
  verified : ∀ i ∈ s.verified, Known past i
  authenticated : ∀ n, s.authenticated = some n → Admits (Known past) n
  yielded : yields past + s.authenticated.isSome.toNat ≤ s.reported.toNat
  ordered : Ordered past

variable {past : List Shown}

theorem Known.append {i : Identity} (h : Known past i) (rest : List Shown) : Known (past ++ rest) i := by
  obtain ⟨c, hc, he⟩ := h
  exact ⟨c, mem_append_left _ hc, he⟩

theorem Admits.mono {p q : Identity → Prop} {n : Negotiation} (h : Admits p n) (hpq : ∀ i, p i → q i) : Admits q n := by
  unfold Admits at h ⊢
  by_cases hn : isNla n.selectedProtocol = true
  · rw [if_pos hn] at h ⊢
    obtain ⟨i, hi, hp⟩ := h
    exact ⟨i, hi, hpq i hp⟩
  · rw [if_neg hn] at h ⊢
    exact h

theorem yields_consulted (past : List Shown) (cs : List Consulted) :
    yields (past ++ cs.map .consulted) = yields past := by
  simp [yields]

theorem consultations_consulted (past : List Shown) (cs : List Consulted) :
    consultations (past ++ cs.map .consulted) = consultations past + cs.length := by
  simp [consultations]

theorem Ordered.append_consulted (h : Ordered past) (cs : List Consulted) : Ordered (past ++ cs.map .consulted) := by
  intro before n after he
  rcases append_eq_append_iff.mp he with ⟨mid, hb, hc⟩ | ⟨mid, hp, hm⟩
  · have hmem : Shown.yielded n ∈ cs.map .consulted := hc ▸ mem_append_right _ mem_cons_self
    obtain ⟨c, _, hne⟩ := mem_map.mp hmem
    cases hne
  · cases mid with
    | nil =>
      have hmem : Shown.yielded n ∈ cs.map .consulted := by
        rw [← nil_append (cs.map _), ← hm]
        exact mem_cons_self
      obtain ⟨c, _, hne⟩ := mem_map.mp hmem
      cases hne
    | cons x mid =>
      rw [cons_append, List.cons.injEq] at hm
      exact h before n mid (by rw [hp, ← hm.1])

theorem Ordered.append_yielded (h : Ordered past) {n : Negotiation} (hn : Admits (Known past) n) :
    Ordered (past ++ [.yielded n]) := by
  intro before m after he
  rcases append_eq_append_iff.mp he with ⟨mid, hb, hc⟩ | ⟨mid, hp, hm⟩
  · cases mid with
    | nil =>
      rw [nil_append, List.cons.injEq] at hc
      cases hc.1
      rw [hb, append_nil]
      exact hn
    | cons x mid =>
      rw [cons_append, List.cons.injEq] at hc
      exact absurd hc.2 (by simp)
  · cases mid with
    | nil =>
      rw [nil_append, List.cons.injEq] at hm
      cases hm.1
      rw [append_nil] at hp
      rw [← hp]
      exact hn
    | cons x mid =>
      rw [cons_append, List.cons.injEq] at hm
      exact h before m mid (by rw [hp, ← hm.1])

theorem handle_cases {frame : List UInt8} {o : Outcome} (h : s.handle frame answers = some o) :
    (o.service = s ∧ o.consulted = [] ∧ (Event.handle frame answers).spends = false) ∨
      ∃ message, (Event.handle frame answers).spends = Spends message ∧ Spec s message o := by
  unfold handle at h
  unfold Event.spends
  dsimp only
  cases hd : decode frame with
  | error e =>
    rw [hd] at h
    cases h
    exact .inl ⟨rfl, rfl, rfl⟩
  | ok message =>
    rw [hd] at h
    exact .inr ⟨message, rfl, handleMessage_spec h⟩

variable {s' : MonitorService} {shown : List Shown}

theorem event_handle {frame : List UInt8} (h : s.event (.handle frame answers) = some (s', shown)) :
    ∃ o, s.handle frame answers = some o ∧ s' = o.service ∧ shown = o.consulted.map .consulted := by
  unfold event at h
  dsimp only at h
  cases ho : s.handle frame answers with
  | none =>
    rw [ho] at h
    cases h
  | some o =>
    rw [ho] at h
    cases h
    exact ⟨o, rfl, rfl, rfl⟩

theorem event_inv {e : Event} (hinv : Inv s past) (h : s.event e = some (s', shown)) : Inv s' (past ++ shown) := by
  cases e with
  | takeAuthenticated =>
    cases h
    unfold takeAuthenticated
    cases ha : s.authenticated with
    | none =>
      have hy := hinv.yielded
      rw [ha] at hy
      rw [map_none, toList_none, append_nil]
      exact ⟨hinv.verified, fun n hn => (by cases hn), hy, hinv.ordered⟩
    | some n =>
      have hy := hinv.yielded
      rw [ha] at hy
      refine ⟨fun i hi => (hinv.verified i hi).append _, fun n hn => (by cases hn), ?_,
        hinv.ordered.append_yielded (hinv.authenticated n ha)⟩
      simpa [yields] using hy
  | handle frame answers =>
    obtain ⟨o, ho, rfl, rfl⟩ := event_handle h
    rcases handle_cases ho with ⟨hs, hc, _⟩ | ⟨message, _, spec⟩
    · rw [hs, hc, map_nil, append_nil]
      exact hinv
    have hknown : ∀ i ∈ o.service.verified, Known (past ++ o.consulted.map .consulted) i := by
      intro i hi
      rcases spec.verified i hi with hi | ⟨c, hc, he⟩
      · exact (hinv.verified i hi).append _
      · exact ⟨c, mem_append_right _ (mem_map_of_mem hc), he⟩
    have hold : ∀ n, s.authenticated = some n → Admits (Known (past ++ o.consulted.map .consulted)) n :=
      fun n hn => (hinv.authenticated n hn).mono fun i hi => hi.append _
    refine ⟨hknown, fun n hn => ?_, ?_, hinv.ordered.append_consulted _⟩
    · rcases spec.reported with ⟨_, ha⟩ | ⟨_, _, ha | ⟨m, ha, hm⟩⟩
      · exact hold n (ha ▸ hn)
      · exact hold n (ha ▸ hn)
      · rw [ha, Option.some.injEq] at hn
        subst hn
        exact hm.mono fun i hi => (hinv.verified i hi).append _
    · have hy := hinv.yielded
      rw [yields_consulted]
      rcases spec.reported with ⟨hr, ha⟩ | ⟨hr, hr', ha⟩
      · rw [hr, ha]
        exact hy
      · rw [hr] at hy
        rw [hr', (Nat.add_eq_zero_iff.mp (le_zero.mp hy)).1, Nat.zero_add]
        exact toNat_le _

theorem run_cons_some {e : Event} {es : List Event} (h : s.run (e :: es) = some (s', shown)) :
    ∃ s1 first rest, s.event e = some (s1, first) ∧ s1.run es = some (s', rest) ∧ shown = first ++ rest := by
  unfold run at h
  cases he : s.event e with
  | none =>
    rw [he] at h
    cases h
  | some p =>
    obtain ⟨s1, first⟩ := p
    rw [he] at h
    dsimp only [bind_eq_bind, bind_some] at h
    cases hr : s1.run es with
    | none =>
      rw [hr] at h
      cases h
    | some q =>
      obtain ⟨s2, rest⟩ := q
      rw [hr] at h
      cases h
      exact ⟨s1, first, rest, rfl, hr, rfl⟩

theorem run_inv : ∀ (es : List Event) {s s' : MonitorService} {past shown : List Shown}, Inv s past →
    s.run es = some (s', shown) → Inv s' (past ++ shown)
  | [], s, s', past, shown, hinv, h => by
    cases h
    rw [append_nil]
    exact hinv
  | e :: es, s, s', past, shown, hinv, h => by
    obtain ⟨s1, first, rest, he, hr, rfl⟩ := run_cons_some h
    rw [← append_assoc]
    exact run_inv es (event_inv hinv he) hr

/-- The budget, with `remaining` requests still to come. -/
structure Budget (remaining : ℕ) (s : MonitorService) (past : List Shown) : Prop where
  attempts : s.attempts + remaining < 2 ^ 32
  consulted : consultations past ≤ s.attempts
  spent : consultations past ≤ s.maxAttempts

theorem event_budget {remaining : ℕ} {e : Event} (hb : Budget (e.spends.toNat + remaining) s past)
    (h : s.event e = some (s', shown)) : Budget remaining s' (past ++ shown) ∧ s'.maxAttempts = s.maxAttempts := by
  obtain ⟨h1, h2, h3⟩ := hb
  cases e with
  | takeAuthenticated =>
    cases h
    have hc : consultations (past ++ (s.takeAuthenticated.2.map .yielded).toList) = consultations past := by
      cases s.takeAuthenticated.2 <;> simp [consultations]
    refine ⟨⟨?_, ?_, ?_⟩, rfl⟩
    · simpa [Event.spends, takeAuthenticated] using h1
    · rw [hc]
      exact h2
    · rw [hc]
      exact h3
  | handle frame answers =>
    obtain ⟨o, ho, rfl, rfl⟩ := event_handle h
    rcases handle_cases ho with ⟨hs, hc, hsp⟩ | ⟨message, hsp, spec⟩
    · rw [hsp, toNat_false, Nat.zero_add] at h1
      rw [hs, hc, map_nil, append_nil]
      exact ⟨⟨h1, h2, h3⟩, rfl⟩
    have hatt := spec.attempts
    refine ⟨⟨?_, ?_, ?_⟩, spec.maxAttempts⟩
    · cases hm : Spends message with
      | false =>
        rw [hm] at hsp hatt
        rw [hatt, if_neg Bool.false_ne_true]
        omega
      | true =>
        rw [hm] at hsp hatt
        rw [hsp, toNat_true] at h1
        rw [hatt, if_pos rfl]
        omega
    · rw [consultations_consulted]
      rcases spec.consulted with hc | ⟨c, hc, hm, _⟩
      · rw [hc, length_nil, hatt]
        cases hm : Spends message with
        | false => simpa using h2
        | true =>
          rw [hm] at hsp
          rw [hsp, toNat_true] at h1
          rw [if_pos rfl]
          omega
      · rw [hsp, hm, toNat_true] at h1
        rw [hc, length_singleton, hatt, hm, if_pos rfl]
        omega
    · rw [consultations_consulted, spec.maxAttempts]
      rcases spec.consulted with hc | ⟨c, hc, hm, hle⟩
      · rw [hc]
        exact h3
      · rw [hsp, hm, toNat_true] at h1
        rw [hatt, hm, if_pos rfl] at hle
        rw [hc, length_singleton]
        omega

theorem run_budget : ∀ (es : List Event) {s s' : MonitorService} {past shown : List Shown},
    Budget (es.countP Event.spends) s past → s.run es = some (s', shown) →
    consultations (past ++ shown) ≤ s.maxAttempts
  | [], s, s', past, shown, hb, h => by
    cases h
    rw [append_nil]
    exact hb.spent
  | e :: es, s, s', past, shown, hb, h => by
    obtain ⟨s1, first, rest, he, hr, rfl⟩ := run_cons_some h
    have hcount : (e :: es).countP Event.spends = e.spends.toNat + es.countP Event.spends := by
      rw [countP_cons]
      cases e.spends <;> simp [Nat.add_comm]
    rw [hcount] at hb
    obtain ⟨hb', hmax⟩ := event_budget hb he
    rw [← append_assoc, ← hmax]
    exact run_budget es hb' hr

/-- **What gets in, over whole runs.** In every run with fewer than 2^32
verification requests, at most one negotiation comes out, it carries an
identity exactly if NLA was selected, and then one that was established before
it; and the verifier and the Kerberos context are consulted at most
`maxAttempts` times. -/
theorem run_verified (kerberos : Bool) (maxAttempts : ℕ) {es : List Event} {s : MonitorService} {shown : List Shown}
    (h : run { kerberos, maxAttempts } es = some (s, shown)) (hcount : es.countP Event.spends < 2 ^ 32) :
    yields shown ≤ 1 ∧ Ordered shown ∧ consultations shown ≤ maxAttempts := by
  have hinit : Inv { kerberos, maxAttempts } [] := by
    refine ⟨fun i hi => (by cases hi), fun n hn => (by cases hn), Nat.le_refl 0, fun before n after he => ?_⟩
    exact absurd he (by simp)
  have hinv := run_inv es hinit h
  rw [nil_append] at hinv
  refine ⟨?_, hinv.ordered, ?_⟩
  · have := hinv.yielded
    have := toNat_le s.reported
    omega
  · have hb : Budget (es.countP Event.spends) { kerberos, maxAttempts } [] :=
    ⟨by dsimp only; omega, le_rfl, Nat.zero_le _⟩
    have := run_budget es hb h
    rwa [nil_append] at this

/-- Alice proves herself, is reported and taken. -/
def aliceEvents : List Event :=
  [.handle [16, 0, 0, 0, 1, 1, 0, 97, 0, 0, 0, 0, 0, 0, 0, 0, 0, 0, 0, 0]
      { sessionBaseKey := some (List.Vector.replicate 16 0) },
   .handle [17, 0, 0, 0, 5, 0, 0, 2, 0, 0, 0, 2, 0, 0, 0, 1, 1, 0, 97, 0, 0] {}, .takeAuthenticated]

theorem run_verified_alice : ∃ s shown, run { kerberos := false, maxAttempts := 8 } aliceEvents = some (s, shown) ∧
    yields shown = 1 ∧ yields shown ≤ 1 ∧ Ordered shown ∧ consultations shown ≤ 8 := by
  refine ⟨_, _, rfl, rfl, ?_⟩
  exact @run_verified false 8 aliceEvents _ _ rfl (by decide)

/-- **However many requests come**, at most one negotiation comes out, behind
the identity that it carries. -/
theorem run_admits (kerberos : Bool) (maxAttempts : ℕ) {es : List Event} {s : MonitorService} {shown : List Shown}
    (h : run { kerberos, maxAttempts } es = some (s, shown)) : yields shown ≤ 1 ∧ Ordered shown := by
  have hinit : Inv { kerberos, maxAttempts } [] :=
    ⟨by simp, by simp, Nat.le_refl 0, fun before n after he => absurd he (by simp)⟩
  have hinv := run_inv es hinit h
  rw [nil_append] at hinv
  refine ⟨?_, hinv.ordered⟩
  have := hinv.yielded
  have := toNat_le s.reported
  omega

theorem run_admits_alice : ∃ s shown, run { kerberos := false, maxAttempts := 8 } aliceEvents = some (s, shown) ∧
    yields shown ≤ 1 ∧ Ordered shown :=
  ⟨_, _, rfl, @run_admits false 8 aliceEvents _ _ rfl⟩

/-! ### The counter wraps -/

/-- A request to check the empty password of the empty user. -/
def passwordFrame : List UInt8 := [7, 0, 0, 0, 3, 0, 0, 0, 0, 0, 0]

theorem event_passwordFrame (s : MonitorService) : s.event (.handle passwordFrame {}) =
    some (s.raised, if s.raised.attempts > s.raised.maxAttempts then []
      else [.consulted (.verifyPassword [] [] false)]) := by
  have hd : decode passwordFrame = .ok (.verifyPasswordRequest [] [] []) := rfl
  unfold event handle
  dsimp only
  rw [hd]
  unfold handleMessage
  dsimp only
  by_cases ha : s.raised.attempts > s.raised.maxAttempts
  · rw [if_pos ha, if_pos ha]
    rfl
  · rw [if_neg ha, if_neg ha]
    rfl

theorem run_append_some {s1 s2 : MonitorService} {es es' : List Event} {a b : List Shown} (h : s.run es = some (s1, a))
    (h' : s1.run es' = some (s2, b)) : s.run (es ++ es') = some (s2, a ++ b) := by
  induction es generalizing s a with
  | nil =>
    cases h
    exact h'
  | cons e es ih =>
    obtain ⟨s3, first, rest, he, hr, rfl⟩ := run_cons_some h
    rw [cons_append, run, he]
    dsimp only [bind_eq_bind, bind_some]
    rw [ih hr]
    simp

theorem run_passwordFrames : ∀ (n : ℕ) (s : MonitorService), s.attempts + n < 2 ^ 32 →
    ∃ shown, s.run (List.replicate n (.handle passwordFrame {})) = some ({ s with attempts := s.attempts + n }, shown)
  | 0, s, _ => ⟨[], rfl⟩
  | n + 1, s, h => by
    have hraised : s.raised = { s with attempts := s.attempts + 1 } := by
      rw [raised, mod_eq_of_lt (by omega)]
    obtain ⟨shown, hrun⟩ := run_passwordFrames n s.raised (by rw [hraised]; dsimp only; omega)
    have hone : ∃ first, s.run [.handle passwordFrame {}] = some (s.raised, first) := by
      rw [run, event_passwordFrame]
      exact ⟨_, rfl⟩
    obtain ⟨first, hfirst⟩ := hone
    refine ⟨first ++ shown, (run_append_some hfirst hrun).trans ?_⟩
    rw [hraised, Nat.add_assoc, Nat.add_comm 1 n]

/-- **2^32 requests consult the verifier nine times** where eight are allowed. -/
theorem attempts_wrap : ¬ ∀ (kerberos : Bool) (maxAttempts : ℕ) (es : List Event) (s : MonitorService)
    (shown : List Shown), run { kerberos, maxAttempts } es = some (s, shown) → consultations shown ≤ maxAttempts := by
  intro h
  have h8 : ∃ shown, run { kerberos := false, maxAttempts := 8 } (List.replicate 8 (.handle passwordFrame {})) =
      some ({ maxAttempts := 8, attempts := 8 }, shown) ∧ consultations shown = 8 := ⟨_, rfl, rfl⟩
  obtain ⟨first, hfirst, hcount⟩ := h8
  obtain ⟨middle, hmiddle⟩ := run_passwordFrames (2 ^ 32 - 9) { maxAttempts := 8, attempts := 8 } (by dsimp only; omega)
  have hlast : run { maxAttempts := 8, attempts := 8 + (2 ^ 32 - 9) } [.handle passwordFrame {}] =
      some ({ maxAttempts := 8, attempts := 0 }, [.consulted (.verifyPassword [] [] false)]) := by
    rw [run, event_passwordFrame]
    rfl
  have hall := h false 8 _ _ _ (run_append_some hfirst (run_append_some hmiddle hlast))
  rw [consultations, countP_append, countP_append] at hall
  change consultations first + (_ + 1) ≤ 8 at hall
  omega

/-! ### Answers that cannot be written -/

end MonitorService

/-- What the context answers to an operation fits a reply. -/
def Answers.Fits (answers : Answers) : KerberosOp → Prop
  | .step => ∀ step, answers.step = some step → step.token.length ≤ maxKerberosBlob ∧
      (step.complete = true → answers.identity.user.length ≤ maxString ∧ answers.identity.domain.length ≤ maxString)
  | .wrap => answers.wrap.length ≤ maxKerberosBlob
  | .unwrap => ∀ plaintext, answers.unwrap = some plaintext → plaintext.length ≤ maxKerberosBlob
  | .getMic => answers.getMic.length ≤ maxKerberosBlob
  | .verifyMic => True

namespace MonitorService

/-- The Kerberos operation a request asks for is performed. -/
def Performs (s : MonitorService) (request : KerberosRequest) (answers : Answers) : Prop :=
  s.kerberos = true ∧ (s.kerberosContext = true ∨ request.op = .step ∧ answers.makesContext = true) ∧
    (request.op = .step → (s.attempts + 1) % 2 ^ 32 ≤ s.maxAttempts)

/-- A Kerberos operation is performed whose answer does not fit a reply. -/
def Oversized (s : MonitorService) (frame : List UInt8) (answers : Answers) : Prop :=
  ∃ request, decode frame = .ok (.kerberosRequest request) ∧ s.Performs request answers ∧ ¬ answers.Fits request.op

variable {s : MonitorService}

theorem replyWith_eq_none {message : Message} {consulted : List Consulted} :
    s.replyWith message consulted = none ↔ encode message = none := by
  unfold replyWith
  cases encode message <;> simp

theorem kerberosOp_eq_none {op : KerberosOp} {answers : Answers} :
    encode (.kerberosResponse (s.kerberosOp op answers).2.1) = none ↔ ¬ answers.Fits op := by
  rw [encode_kerberosResponse_eq_none]
  unfold kerberosOp Answers.Fits
  cases op with
  | step =>
    unfold kerberosStep
    cases answers.step with
    | none => simp
    | some st =>
      by_cases hc : st.complete = true
      · simp only [hc, if_true, Option.some.injEq, forall_eq', true_imp_iff, not_and_or, not_le]
      · simp [hc]
  | wrap =>
    by_cases hw : answers.wrap = []
    · simp [hw]
    · simp [hw]
  | unwrap => cases answers.unwrap <;> simp
  | getMic =>
    by_cases hw : answers.getMic = []
    · simp [hw]
    · simp [hw]
  | verifyMic => simp

/-- An empty answer can always be written. -/
theorem encode_refusal_ne_none : encode (.kerberosResponse {}) ≠ none := by
  decide

/-- **When one call aborts.** -/
theorem handle_eq_none_iff {frame : List UInt8} {answers : Answers} :
    s.handle frame answers = none ↔ s.Oversized frame answers := by
  unfold handle Oversized
  cases hd : decode frame with
  | error e => simp
  | ok message =>
    cases message with
    | verifyNtlmRequest user domain challenge response =>
      have hne : ∀ (s : MonitorService) key cs, s.replyWith (.verifyNtlmResponse key) cs ≠ none := by
        intro s key cs hn
        obtain ⟨reply, hreply⟩ := encode_verifyNtlmResponse key
        rw [replyWith_eq_none, hreply] at hn
        cases hn
      unfold handleMessage
      dsimp only
      split_ifs <;> simp [hne]
    | verifyPasswordRequest user domain password =>
      have hne : ∀ (s : MonitorService) ok cs, s.replyWith (.verifyPasswordResponse ok) cs ≠ none := by
        intro s ok cs hn
        cases hn
      unfold handleMessage
      dsimp only
      split_ifs <;> simp [hne]
    | kerberosRequest request =>
      have hreq : (∃ request_1, (Except.ok (Message.kerberosRequest request) : Result Message) =
          Except.ok (Message.kerberosRequest request_1) ∧ s.Performs request_1 answers ∧ ¬ answers.Fits request_1.op) ↔
          s.Performs request answers ∧ ¬ answers.Fits request.op := by
        constructor
        · rintro ⟨r, hr, h⟩
          cases hr
          exact h
        · exact fun h => ⟨request, rfl, h⟩
      rw [hreq]
      unfold handleMessage Performs
      dsimp only
      generalize hs1 : (if request.op = .step then s.raised else s) = s1
      have hfields : s1.kerberos = s.kerberos ∧ s1.kerberosContext = s.kerberosContext ∧
          s1.maxAttempts = s.maxAttempts ∧ (request.op = .step → s1.attempts = (s.attempts + 1) % 2 ^ 32) := by
        rw [← hs1]
        split_ifs with hop
        · exact ⟨rfl, rfl, rfl, fun _ => rfl⟩
        · exact ⟨rfl, rfl, rfl, fun h => absurd h hop⟩
      obtain ⟨h1, h2, h3, h4⟩ := hfields
      by_cases ha : request.op = .step ∧ s1.attempts > s1.maxAttempts
      · rw [if_pos ha, replyWith_eq_none]
        refine ⟨fun hn => absurd hn encode_refusal_ne_none, fun hp => ?_⟩
        have := hp.1.2.2 ha.1
        rw [← h4 ha.1, ← h3] at this
        exact absurd this (not_le.mpr ha.2)
      rw [if_neg ha]
      have hbudget : request.op = .step → (s.attempts + 1) % 2 ^ 32 ≤ s.maxAttempts := by
        intro hop
        rw [← h4 hop, ← h3]
        by_contra hlt
        exact ha ⟨hop, not_le.mp hlt⟩
      unfold handleKerberos
      by_cases hk : s1.kerberos = false
      · rw [if_pos hk]
        rw [replyWith_eq_none]
        refine ⟨fun hn => absurd hn encode_refusal_ne_none, fun hp => ?_⟩
        have := hp.1.1
        rw [← h1, hk] at this
        cases this
      rw [if_neg hk]
      generalize hs2 : (if request.op = .step ∧ s1.kerberosContext = false then
        { s1 with kerberosContext := answers.makesContext } else s1) = s2
      have hcontext : s2.kerberosContext = true ↔
          s.kerberosContext = true ∨ request.op = .step ∧ answers.makesContext = true := by
        rw [← hs2, ← h2]
        split_ifs with hc
        · simp [hc.1, hc.2]
        · constructor
          · exact .inl
          · rintro (h | ⟨hop, _⟩)
            · exact h
            · exact not_eq_false _ ▸ fun hf => hc ⟨hop, hf⟩
      by_cases hc : s2.kerberosContext = false
      · rw [if_pos hc]
        have hno : ¬ (s.kerberosContext = true ∨ request.op = .step ∧ answers.makesContext = true) := by
          rw [← hcontext, hc]
          exact Bool.false_ne_true
        by_cases hop : request.op = .step
        · rw [if_pos hop]
          rw [replyWith_eq_none]
          exact ⟨fun hn => absurd hn encode_refusal_ne_none, fun hp => absurd hp.1.2.1 hno⟩
        · rw [if_neg hop]
          exact ⟨fun hn => (by cases hn), fun hp => absurd hp.1.2.1 hno⟩
      · rw [if_neg hc]
        rw [replyWith_eq_none, kerberosOp_eq_none]
        have hyes := hcontext.mp (by simpa using hc)
        have hkerb : s.kerberos = true := by
          rw [← h1]
          simpa using hk
        exact ⟨fun hf => ⟨⟨hkerb, hyes, hbudget⟩, hf⟩, fun hp => hp.2⟩
    | authenticated n | verifyNtlmResponse _ | verifyPasswordResponse _ | kerberosResponse _ => simp [handleMessage]

theorem event_eq_none_iff {e : Event} :
    s.event e = none ↔ ∃ frame answers, e = .handle frame answers ∧ s.Oversized frame answers := by
  cases e with
  | takeAuthenticated => exact ⟨fun h => (by cases h), fun ⟨_, _, h, _⟩ => (by cases h)⟩
  | handle frame answers =>
    unfold event
    rw [bind_eq_bind, bind_eq_none_iff]
    constructor
    · intro h
      refine ⟨frame, answers, rfl, handle_eq_none_iff.mp ?_⟩
      rw [eq_none_iff_forall_ne_some]
      exact fun o ho => by cases h o ho
    · rintro ⟨f, a, he, h⟩ o ho
      cases he
      rw [handle_eq_none_iff.mpr h] at ho
      cases ho

/-- **When a run aborts**: it goes on as long as no Kerberos operation gets an
answer that does not fit a reply, and no longer. -/
theorem run_isSome_iff {es : List Event} : ∀ {s : MonitorService},
    (s.run es).isSome ↔ ∀ before frame answers after s' shown, es = before ++ .handle frame answers :: after →
      s.run before = some (s', shown) → ¬ s'.Oversized frame answers := by
  induction es with
  | nil =>
    intro s
    refine ⟨fun _ before frame answers after s' shown he _ => ?_, fun _ => rfl⟩
    exact absurd he (by simp)
  | cons e es ih =>
    intro s
    cases hev : s.event e with
    | none =>
      obtain ⟨frame, answers, rfl, ho⟩ := event_eq_none_iff.mp hev
      refine ⟨fun h => ?_, fun h => absurd ho (h [] frame answers es s [] rfl rfl)⟩
      rw [run, hev] at h
      cases h
    | some p =>
      obtain ⟨s1, first⟩ := p
      have hrun : (s.run (e :: es)).isSome = (s1.run es).isSome := by
        rw [run, hev]
        dsimp only [bind_eq_bind, bind_some]
        cases s1.run es <;> rfl
      rw [hrun, ih]
      constructor
      · intro h before frame answers after s' shown he hb
        cases before with
        | nil =>
          rw [nil_append, List.cons.injEq] at he
          cases hb
          intro ho
          have : s.event e = none := event_eq_none_iff.mpr ⟨frame, answers, he.1, ho⟩
          rw [hev] at this
          cases this
        | cons b before =>
          rw [cons_append, List.cons.injEq] at he
          obtain ⟨rfl, he⟩ := he
          obtain ⟨s2, first', rest, h1, h2, _⟩ := run_cons_some hb
          rw [hev] at h1
          cases h1
          exact h before frame answers after s' rest he h2
      · intro h before frame answers after s' shown he hb
        refine h (e :: before) frame answers after s' (first ++ shown) (by rw [he]; rfl) ?_
        rw [run, hev]
        dsimp only [bind_eq_bind, bind_some]
        rw [hb]
        rfl

/-- **A principal with a long name aborts the monitor**: the ticket of a user
of 1025 bytes completes the context. -/
theorem abort_on_long_principal : ¬ ∀ (kerberos : Bool) (maxAttempts : ℕ) (es : List Event),
    (∀ frame answers, .handle frame answers ∈ es → ∃ message, decode frame = .ok message) →
    (run { kerberos, maxAttempts } es).isSome := by
  intro h
  have hrun := h true 8 [.handle [14, 0, 0, 0, 6, 1, 0, 0, 0, 0, 0, 0, 0, 0, 0, 0, 0, 0]
    { makesContext := true, step := some ⟨[], true⟩, identity := ⟨List.replicate 1025 97, []⟩ }] (by
      intro frame answers hmem
      cases mem_singleton.mp hmem
      exact ⟨_, rfl⟩)
  revert hrun
  decide +kernel

end MonitorService
end Privsep
end Server
end Farland
