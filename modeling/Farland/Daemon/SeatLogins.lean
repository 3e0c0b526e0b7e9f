/-
# No login at the machine is forgotten

What is known about a login is in four places: the gate has its cookie,
`seat_questions` the number it is asked about under, and the broker its prompt
or the loop its resolution. The login gets its answer as long as the last two
lead back to the first (`LoginsKept`).

`end_session` breaks the chain: it takes the prompts of the session away and
only tells the client that is held. A login whose question is out then keeps
its entry in `seat_questions` and no answer comes any more, unless it is the
question itself that did not reach the agent (`ask_the_seat` looks after
that). `Attended` says that nothing else ends a session with such a question
out; the other conditions are that no number and no cookie comes twice.

Key theorems: `run_loginsKept`, `end_forgets_login`.
-/
import Farland.Daemon.Numbers

namespace Farland
namespace Daemon

open Server Server.Broker List

variable {d d' : Impl} {busy : List ℕ} {w : World} {l : List Waiting} {x : Waiting} {connection session : ℕ}

/-- No session ends while a login that still waits is asked about in it, but
for the question that does not reach the agent. -/
def Attended (log : List Entry) : Prop := ∀ session cause abandoned undecided,
  .ended session cause abandoned undecided ∈ log → ∀ p ∈ abandoned, p.connection ∈ undecided →
    ∃ q, cause = some (.consentRequest q) ∧ q.connectionId = p.connection

/-- No number and no cookie stands for two things, and sessions are attended. -/
structure Unmixed (log : List Entry) : Prop where
  cookies : (loginCookies log).Nodup
  seats : (seatNumbers log).Nodup
  clients : ∀ c, .accepted c ∈ log → c ∉ seatNumbers log
  attended : Attended log

theorem Unmixed.of_append {log es : List Entry} (h : Unmixed (log ++ es)) : Unmixed log := by
  have hcookies := h.cookies
  have hseats := h.seats
  rw [loginCookies_append] at hcookies
  rw [seatNumbers_append] at hseats
  refine ⟨hcookies.of_append_left, hseats.of_append_left, fun c hc hs => ?_,
    fun session cause abandoned undecided hm => ?_⟩
  · refine h.clients c (mem_append_left _ hc) ?_
    rw [seatNumbers_append]
    exact mem_append_left _ hs
  · exact h.attended session cause abandoned undecided (mem_append_left _ hm)

namespace Impl

/-- Every login that the loop took and that has no answer yet has one
question, which is out or over. -/
def LoginsKept (d : Impl) : Prop := ∀ p ∈ d.seatGate.pending, p.taken = true → p.done = false →
  ∃ n, (d.seatQuestions.filter fun q => q.2 == p.cookie) = [(n, p.cookie)] ∧
    ((∃ prompt ∈ d.consent.prompts, prompt.connection = n) ∨ ∃ r ∈ d.resolutions, r.connection = n)

/-- The four places, while the logins with the cookies `busy` are being seen
to. -/
structure SeatInv (busy : List ℕ) (d : Impl) : Prop where
  pending : (d.seatGate.pending.map (·.cookie)).Nodup
  logged : ∀ p ∈ d.seatGate.pending, p.cookie ∈ loginCookies d.log
  keys : (d.seatQuestions.map (·.1)).Nodup
  cookies : (d.seatQuestions.map (·.2)).Nodup
  questioned : ∀ q ∈ d.seatQuestions, q.2 ∈ loginCookies d.log
  untaken : ∀ p ∈ d.seatGate.pending, p.taken = false → ∀ q ∈ d.seatQuestions, q.2 ≠ p.cookie
  kept : ∀ p ∈ d.seatGate.pending, p.taken = true → p.done = false → p.cookie ∉ busy →
    ∃ n, (n, p.cookie) ∈ d.seatQuestions ∧ n ∈ d.numbers

/-- The invariant, as long as nothing was mixed up. -/
def Kept (busy : List ℕ) (d : Impl) : Prop := Unmixed d.log → SeatInv busy d

theorem mem_undecided {q : ℕ × ℕ} {p : Pending} (hq : q ∈ d.seatQuestions) (hp : p ∈ d.seatGate.pending)
    (hc : p.cookie = q.2) (hd : p.done = false) : q.1 ∈ d.undecided := by
  unfold undecided
  refine mem_map.mpr ⟨q, mem_filter.mpr ⟨hq, ?_⟩, rfl⟩
  rw [any_eq_true]
  exact ⟨p, hp, by simp [hc, hd]⟩

/-- The cookies of a longer history. -/
theorem mem_loginCookies_of_append {k : ℕ} (hlog : ∃ es, d'.log = d.log ++ es) (hk : k ∈ loginCookies d.log) :
    k ∈ loginCookies d'.log := by
  obtain ⟨es, hlog⟩ := hlog
  rw [hlog, loginCookies_append]
  exact mem_append_left _ hk

/-- A step that leaves the gate and the questions alone, and that loses no
number a login waits for. -/
theorem Kept.step (h : Kept busy d) (hg : d'.seatGate = d.seatGate)
    (hq : d'.seatQuestions = d.seatQuestions) (hlog : ∃ es, d'.log = d.log ++ es)
    (hn : Unmixed d'.log → SeatInv busy d → ∀ q ∈ d.seatQuestions, q.2 ∉ busy → q.1 ∈ d.undecided → q.1 ∈ d.numbers →
      q.1 ∈ d'.numbers) : Kept busy d' := by
  intro hu
  have hu0 : Unmixed d.log := by
    obtain ⟨es, he⟩ := hlog
    rw [he] at hu
    exact hu.of_append
  have hi := h hu0
  refine ⟨?_, fun p hp => ?_, ?_, ?_, fun q hm => ?_, ?_, fun p hp ht hd hb => ?_⟩
  · rw [hg]
    exact hi.pending
  · rw [hg] at hp
    exact mem_loginCookies_of_append hlog (hi.logged p hp)
  · rw [hq]
    exact hi.keys
  · rw [hq]
    exact hi.cookies
  · rw [hq] at hm
    exact mem_loginCookies_of_append hlog (hi.questioned q hm)
  · rw [hg, hq]
    exact hi.untaken
  · rw [hg] at hp
    rw [hq]
    obtain ⟨n, hm, hnum⟩ := hi.kept p hp ht hd hb
    exact ⟨n, hm, hn hu hi (n, p.cookie) hm hb (mem_undecided hm hp rfl hd) hnum⟩

/-- A step that leaves the numbers alone too. -/
theorem Kept.same (h : Kept busy d) (hg : d'.seatGate = d.seatGate)
    (hq : d'.seatQuestions = d.seatQuestions) (hlog : ∃ es, d'.log = d.log ++ es) (hc : d'.consent = d.consent)
    (hr : d'.resolutions = d.resolutions) : Kept busy d' :=
  h.step hg hq hlog fun _ _ _ _ _ _ hn => by rwa [numbers_of_eq hc hr]

/-- The number of a login's question is no client's. -/
theorem ne_of_accepted (hu : Unmixed d'.log) (ho : Owned d) (hlog : ∃ es, d'.log = d.log ++ es) {c : ℕ}
    (hc : d.Accepted c) {q : ℕ × ℕ} (hq : q ∈ d.seatQuestions) : q.1 ≠ c := by
  rintro rfl
  obtain ⟨cookie, hk⟩ := ho.questions q hq
  obtain ⟨es, hlog⟩ := hlog
  refine hu.clients q.1 ?_ (mem_seatNumbers.mpr ⟨cookie, ?_⟩)
  · rw [hlog]
    exact mem_append_left _ hc
  · rw [hlog]
    exact mem_append_left _ hk

/-! ### Writes for clients -/

theorem Kept.ends {id : ℕ} {cause : Option Message} (h : Kept busy d)
    (hc : Unmixed (d.endSession id cause).log → SeatInv busy d → ∀ q, cause = some (.consentRequest q) →
      ∀ e ∈ d.seatQuestions, e.1 = q.connectionId → e.2 ∈ busy) : Kept busy (d.endSession id cause) := by
  have hs := endSession_spec d id cause
  obtain ⟨refusal, -, hlog⟩ := hs.log
  refine h.step hs.seatGate hs.seatQuestions ⟨_, hlog⟩ fun hu hi q hq hbusy hundecided hn => ?_
  rcases mem_numbers.mp hn with ⟨p, hp, hpc⟩ | ⟨r, hr, hrc⟩
  · by_cases hsession : p.session = id
    · -- The prompt is abandoned, so the session ended under this very question.
      have habandoned : p ∈ (d.consent.take id).2 := mem_filter.mpr ⟨hp, by simpa using hsession⟩
      have hended : .ended id cause (d.consent.take id).2 d.undecided ∈ (d.endSession id cause).log := by
        rw [hlog]
        simp
      rw [← hpc] at hundecided
      obtain ⟨request, hcause, hnumber⟩ := hu.attended _ _ _ _ hended p habandoned hundecided
      exact absurd (hc hu hi request hcause q hq (hpc.symm.trans hnumber.symm)) hbusy
    · refine mem_numbers.mpr (.inl ⟨p, ?_, hpc⟩)
      rw [hs.consent]
      exact mem_filter.mpr ⟨hp, by simpa using hsession⟩
  · exact mem_numbers.mpr (.inr ⟨r, by rw [hs.resolutions]; exact hr, hrc⟩)

theorem Kept.forget (h : Kept busy d) (ho : Owned d)
    (hc : d.Accepted connection) : Kept busy (d.forget connection) := by
  refine h.step rfl rfl ⟨_, rfl⟩ fun hu _ q hq _ _ hn => ?_
  have hne := ne_of_accepted hu ho ⟨_, rfl⟩ hc hq
  rcases mem_numbers.mp hn with ⟨p, hp, hpc⟩ | hr
  · exact mem_numbers.mpr (.inl ⟨p, mem_filter.mpr ⟨hp, by simp [hpc, hne]⟩, hpc⟩)
  · exact mem_numbers.mpr (.inr hr)

theorem Kept.ask {who : Party} {now : Time} (h : Kept busy d)
    (ho : Owned d) (hc : d.Accepted connection) : Kept busy (d.ask session connection who now) := by
  refine h.step rfl rfl ⟨_, rfl⟩ fun hu _ q hq _ _ hn => ?_
  have hne := ne_of_accepted hu ho ⟨_, rfl⟩ hc hq
  rcases mem_numbers.mp hn with ⟨p, hp, hpc⟩ | hr
  · refine mem_numbers.mpr (.inl ⟨p, mem_append_left _ (mem_filter.mpr ⟨hp, ?_⟩), hpc⟩)
    simp [hpc, hne]
  · exact mem_numbers.mpr (.inr hr)

/-- Prompts of a session turn into resolutions. -/
theorem Kept.release (h : Kept busy d) : Kept busy (d.release session) :=
  h.step rfl rfl ⟨_, rfl⟩ fun _ _ _ _ _ _ hn => (d.numbers_release session).symm.subset hn

theorem Kept.expire {now : Time} (h : Kept busy d) : Kept busy (d.expire now) :=
  h.step rfl rfl ⟨_, rfl⟩ fun _ _ _ _ _ _ hn => (d.numbers_expire now).symm.subset hn

theorem Kept.answer {id : ℕ} {a : ConsentAnswer} (h : Kept busy d) : Kept busy (d.answer id connection a) :=
  h.step rfl rfl ⟨_, rfl⟩ fun _ _ _ _ _ _ hn => (d.numbers_answer id connection a).symm.subset hn

theorem kept_mild (busy : List ℕ) : Mild (Kept busy) where
  quiet h _ hq := by
    obtain ⟨es, hlog, -⟩ := hq.log
    exact h.same hq.seatGate hq.seatQuestions ⟨es, hlog⟩ hq.consent hq.resolutions
  ends h _ _ hc := h.ends fun _ _ q hq => absurd hq (hc q)
  endsAsking {d id q} h ho _ hc := by
    refine h.ends fun hu _ q' hq' e he hn => ?_
    cases hq'
    obtain ⟨refusal, -, hlog⟩ := (endSession_spec d id (some (.consentRequest q))).log
    exact absurd hn (ne_of_accepted hu ho ⟨_, hlog⟩ hc he)
  connect h _ _ := h.same rfl rfl ⟨_, append_assoc _ _ _⟩ rfl rfl
  serve h _ _ := h.same rfl rfl ⟨_, rfl⟩ rfl rfl
  unask h _ _ := h.same rfl rfl ⟨_, rfl⟩ rfl rfl
  hold h _ _ := h.same rfl rfl ⟨_, rfl⟩ rfl rfl
  forget h ho hc := h.forget ho hc
  ask h ho hc := h.ask ho hc
  sent h _ _ := h.same rfl rfl ⟨_, rfl⟩ rfl rfl
  unreached h _ _ := h.same rfl rfl ⟨_, rfl⟩ rfl rfl
  disconnected h _ _ := h.same rfl rfl ⟨_, append_assoc _ _ _⟩ rfl rfl
  release h _ := h.release
  report h _ _ _ := h.same rfl rfl ⟨_, rfl⟩ rfl rfl
  useAfterTerminate h _ _ := h.same rfl rfl ⟨_, rfl⟩ rfl rfl

/-! ### What sending leaves alone -/

theorem seat_sendTo (d : Impl) (w : World) (id : ℕ) (m : Message) :
    (d.sendTo w id m).1.seatGate = d.seatGate ∧ (d.sendTo w id m).1.seatQuestions = d.seatQuestions := by
  rcases sendTo_cases d w id m with ⟨-, hs⟩ | hs
  · rw [hs]
    exact ⟨rfl, rfl⟩
  · rw [hs]
    have hended := endSession_spec ((d.use id).note (.unreached id m)) id (some m)
    exact ⟨hended.seatGate, hended.seatQuestions⟩

theorem seatQuestions_tellSeat (d : Impl) (w : World) (r : Resolved) :
    (d.tellSeat w r).seatQuestions = d.seatQuestions := by
  unfold tellSeat
  dsimp only
  split_ifs
  · rw [(seat_sendTo _ _ _ _).2, (seat_sendTo _ _ _ _).2]
  · exact (seat_sendTo _ _ _ _).2
  · exact (seat_sendTo _ _ _ _).2
  · rfl

/-! ### Answers -/

/-- The login that has its answer is no longer busy. -/
theorem Kept.letGo {cookie : ℕ} {allowed : Bool} (h : Kept (cookie :: busy) d) :
    Kept busy (d.letGo cookie allowed) := by
  intro hu
  have hi := h hu
  have hmem : ∀ p ∈ (d.letGo cookie allowed).seatGate.pending, ∃ p0 ∈ d.seatGate.pending, p0.cookie = p.cookie ∧
      p0.taken = p.taken ∧ (p.done = false → p0.done = false ∧ p.cookie ≠ cookie) := by
    intro p hp
    obtain ⟨p0, hp0, rfl⟩ := mem_map.mp hp
    split_ifs with hc
    · exact ⟨p0, hp0, rfl, rfl, by simp⟩
    · exact ⟨p0, hp0, rfl, rfl, fun hd => ⟨hd, hc⟩⟩
  refine ⟨?_, fun p hp => ?_, hi.keys, hi.cookies, hi.questioned, fun p hp ht q hq => ?_, fun p hp ht hd hb => ?_⟩
  · have hsame : (d.letGo cookie allowed).seatGate.pending.map (·.cookie) = d.seatGate.pending.map (·.cookie) := by
      simp only [Impl.letGo, SeatTakeoverGate.resolve, map_map]
      refine map_congr_left fun p _ => ?_
      simp only [Function.comp_apply]
      split_ifs <;> rfl
    rw [hsame]
    exact hi.pending
  · obtain ⟨p0, hp0, hc, -⟩ := hmem p hp
    rw [← hc]
    exact hi.logged p0 hp0
  · obtain ⟨p0, hp0, hc, ht0, -⟩ := hmem p hp
    rw [← hc]
    exact hi.untaken p0 hp0 (ht0.trans ht) q hq
  · obtain ⟨p0, hp0, hc, ht0, hd0⟩ := hmem p hp
    obtain ⟨hd0, hne⟩ := hd0 hd
    rw [← hc] at hb hne ⊢
    exact hi.kept p0 hp0 (ht0.trans ht) hd0 (by simp [hne, hb])

/-- The question of a login that has its answer, or is busy, is dropped. -/
theorem Kept.closeQuestion (h : Kept busy d)
    (hk : SeatInv busy d → ∀ q ∈ d.seatQuestions, q.1 = connection → ∀ p ∈ d.seatGate.pending, p.cookie = q.2 →
      p.done = true ∨ p.cookie ∈ busy) : Kept busy (d.closeQuestion connection) := by
  intro hu
  have hi := h hu
  have hsub : (d.closeQuestion connection).seatQuestions.Sublist d.seatQuestions := filter_sublist
  refine ⟨hi.pending, hi.logged, hi.keys.sublist (hsub.map _), hi.cookies.sublist (hsub.map _),
    fun q hq => hi.questioned q (hsub.subset hq), fun p hp ht q hq => hi.untaken p hp ht q (hsub.subset hq),
    fun p hp ht hd hb => ?_⟩
  obtain ⟨n, hm, hn⟩ := hi.kept p hp ht hd hb
  refine ⟨n, mem_filter.mpr ⟨hm, ?_⟩, hn⟩
  rw [bne_iff_ne]
  intro he
  rcases hk hi (n, p.cookie) hm he p hp rfl with hdone | hbusy
  · rw [hd] at hdone
    cases hdone
  · exact hb hbusy

/-- The question of a number. -/
theorem SeatInv.question (hi : SeatInv busy d) {q q' : ℕ × ℕ} (hq : q ∈ d.seatQuestions)
    (hq' : q' ∈ d.seatQuestions) (h : q.1 = q'.1) : q = q' := inj_on_of_nodup_map hi.keys hq hq' h

/-- The login of a question that is over gets its answer. -/
theorem Kept.resolveSeat {r : Resolved} {question : ℕ × ℕ} (h : Kept [question.2] d) (ho : Owned d)
    (hnum : Numbered d.log r.connection) (hmem : question ∈ d.seatQuestions) (hkey : question.1 = r.connection) :
    Kept [] (d.resolveSeat w r question.2) := by
  have h1 := ((kept_mild [question.2]).tellSeat w ⟨h, ho⟩ hnum).1
  refine h1.letGo.closeQuestion fun hi q hq he p hp hc => .inl ?_
  have hquestion : question ∈ (d.tellSeat w r).seatQuestions := by
    rw [seatQuestions_tellSeat]
    exact hmem
  have hsame : q = question := hi.question hq hquestion (he.trans hkey.symm)
  obtain ⟨p0, -, rfl⟩ := mem_map.mp hp
  split_ifs at hc ⊢ with hcookie
  · rfl
  · rw [hsame] at hc
    exact absurd hc hcookie

theorem Kept.resolve {r : Resolved} {rest : List Resolved} (h : Kept [] d) (ho : Owned d)
    (hr : d.resolutions = r :: rest) : Kept [] (resolve { d with resolutions := rest } w r) := by
  have hnum : Numbered d.log r.connection := ho.numbers _ ((numbers_pop hr).symm.subset mem_cons_self)
  have hpop : ∀ seat, Owned (note { d with resolutions := rest } (.settled r seat)) := by
    intro seat
    exact Carries.owned (d := d) (.of_log _ rfl rfl rfl (fun _ hc =>
      .inr ((numbers_pop hr).symm.subset (mem_cons_of_mem _ hc))) rfl) ho
  -- Taking the resolution off the queue loses its own number only.
  have hkept : ∀ (busy : List ℕ) (seat : Bool), (SeatInv busy d → ∀ q ∈ d.seatQuestions, q.1 = r.connection →
    q.2 ∈ busy) →
      Kept busy d → Kept busy (note { d with resolutions := rest } (.settled r seat)) := by
    intro busy seat hbusy h
    refine h.step rfl rfl ⟨_, rfl⟩ fun _ hi q hq hqb _ hn => ?_
    rcases mem_cons.mp ((numbers_pop hr).subset hn) with hown | hn
    · exact absurd (hbusy hi q hq hown) hqb
    · exact hn
  unfold Impl.resolve
  cases hf : d.seatQuestions.find? fun q => q.1 == r.connection with
  | none =>
    have hnone := find?_eq_none.mp hf
    have h1 := hkept [] false (fun _ q hq he => absurd he (by simpa using hnone q hq)) h
    exact ((kept_mild []).resolveClient w ⟨h1, hpop false⟩ (hnum.mono _)).1
  | some question =>
    have hmem := mem_of_find?_eq_some hf
    have hkey : question.1 = r.connection := by simpa using find?_some hf
    have hweak : Kept [question.2] d := fun hu => by
      have hi := h hu
      exact ⟨hi.pending, hi.logged, hi.keys, hi.cookies, hi.questioned, hi.untaken,
        fun p hp ht hd _ => hi.kept p hp ht hd (by simp)⟩
    have h1 := hkept [question.2] true (fun hi q hq he => by
      rw [hi.question hq hmem (he.trans hkey.symm)]
      exact mem_singleton_self _) hweak
    exact h1.resolveSeat (hpop true) (hnum.mono _) hmem hkey

/-! ### Asking -/

/-- The logins `l` are still to be asked about. -/
structure InHand (l : List Waiting) (d : Impl) : Prop where
  inv : SeatInv (l.map (·.cookie)) d
  nodup : (l.map (·.cookie)).Nodup
  cookie : ∀ x ∈ l, x.cookie ∈ loginCookies d.log
  unasked : ∀ x ∈ l, ∀ q ∈ d.seatQuestions, q.2 ≠ x.cookie
  taken : ∀ x ∈ l, ∀ p ∈ d.seatGate.pending, p.cookie = x.cookie → p.taken = true

/-- One login is seen to. -/
theorem InHand.next (h : InHand (x :: l) d) (hi : SeatInv (l.map (·.cookie)) d') (hlog : ∃ es, d'.log = d.log ++ es)
    (hq : ∀ q ∈ d'.seatQuestions, q ∈ d.seatQuestions ∨ q.2 = x.cookie)
    (hp : ∀ p ∈ d'.seatGate.pending, ∃ p0 ∈ d.seatGate.pending, p0.cookie = p.cookie ∧ p0.taken = p.taken) :
    InHand l d' := by
  have hnodup := nodup_cons.mp h.nodup
  refine ⟨hi, hnodup.2, fun y hy => mem_loginCookies_of_append hlog (h.cookie y (mem_cons_of_mem _ hy)),
    fun y hy q hm => ?_, fun y hy p hm hc => ?_⟩
  · rcases hq q hm with hm | hm
    · exact h.unasked y (mem_cons_of_mem _ hy) q hm
    · rw [hm]
      intro he
      have hmem : x.cookie ∈ l.map (·.cookie) := by
        rw [he]
        exact mem_map_of_mem hy
      exact hnodup.1 hmem
  · obtain ⟨p0, hp0, hc0, ht0⟩ := hp p hm
    rw [← ht0]
    exact h.taken y (mem_cons_of_mem _ hy) p0 hp0 (hc0.trans hc)

theorem pending_letGo {cookie : ℕ} {allowed : Bool} {p : Pending} (hp : p ∈ (d.letGo cookie allowed).seatGate.pending) :
    ∃ p0 ∈ d.seatGate.pending, p0.cookie = p.cookie ∧ p0.taken = p.taken := by
  obtain ⟨p0, hp0, rfl⟩ := mem_map.mp hp
  split_ifs <;> exact ⟨p0, hp0, rfl, rfl⟩

/-- The question about a login is written down. -/
theorem InHand.openQuestion (h : InHand (x :: l) d) (ho : Owned d) (hu : Unmixed (d.openQuestion w session x).log) :
    SeatInv (l.map (·.cookie)) (d.openQuestion w session x) ∧
      (d.openQuestion w session x).seatQuestions = d.seatQuestions ++ [(d.nextSeatConnection, x.cookie)] := by
  have hlog : ∃ es, (d.openQuestion w session x).log = d.log ++ es := (carries_openQuestion d w session x).log
  have hseats := hu.seats
  have hnumbers : seatNumbers (d.openQuestion w session x).log = seatNumbers d.log ++ [d.nextSeatConnection] := by
    simp [Impl.openQuestion, Impl.ask, use, note, seatNumbers]
  rw [hnumbers] at hseats
  have hfresh : ∀ q ∈ d.seatQuestions, q.1 ≠ d.nextSeatConnection := by
    intro q hq he
    obtain ⟨cookie, hk⟩ := ho.questions q hq
    rw [nodup_append] at hseats
    exact hseats.2.2 q.1 (mem_seatNumbers.mpr ⟨cookie, hk⟩) d.nextSeatConnection (mem_singleton_self _) he
  have hquestions : (d.openQuestion w session x).seatQuestions = d.seatQuestions ++ [(d.nextSeatConnection,
    x.cookie)] := by
    have hany : (d.seatQuestions.any fun q => q.1 == d.nextSeatConnection) = false := by
      rw [any_eq_false]
      intro q hq
      simpa using hfresh q hq
    change (if (d.seatQuestions.any fun q => q.1 == d.nextSeatConnection) = true then _ else _) = _
    rw [hany]
    rfl
  have hi := h.inv
  refine ⟨⟨hi.pending, fun p hp => mem_loginCookies_of_append hlog (hi.logged p hp), ?_, ?_, fun q hq => ?_,
    fun p hp ht q hq => ?_, fun p hp ht hd hb => ?_⟩, hquestions⟩
  · rw [hquestions, map_append]
    refine List.Nodup.append hi.keys (nodup_singleton _) fun n hn hone => ?_
    obtain ⟨q, hq, rfl⟩ := mem_map.mp hn
    exact hfresh q hq (mem_singleton.mp hone)
  · rw [hquestions, map_append]
    refine List.Nodup.append hi.cookies (nodup_singleton _) fun k hk hone => ?_
    obtain ⟨q, hq, rfl⟩ := mem_map.mp hk
    exact h.unasked x mem_cons_self q hq (mem_singleton.mp hone)
  · rw [hquestions] at hq
    rcases mem_append.mp hq with hq | hq
    · exact mem_loginCookies_of_append hlog (hi.questioned q hq)
    · cases mem_singleton.mp hq
      exact mem_loginCookies_of_append hlog (h.cookie x mem_cons_self)
  · rw [hquestions] at hq
    rcases mem_append.mp hq with hq | hq
    · exact hi.untaken p hp ht q hq
    · cases mem_singleton.mp hq
      intro he
      have := h.taken x mem_cons_self p hp he.symm
      rw [ht] at this
      cases this
  · rw [hquestions]
    by_cases hx : p.cookie = x.cookie
    · refine ⟨d.nextSeatConnection, mem_append_right _ (by rw [hx]; exact mem_singleton_self _), ?_⟩
      exact mem_numbers.mpr (.inl ⟨_, mem_append_right _ (mem_singleton_self _), rfl⟩)
    · obtain ⟨n, hm, hn⟩ := hi.kept p hp ht hd (by simp [hx, hb])
      refine ⟨n, mem_append_left _ hm, ?_⟩
      rcases mem_numbers.mp hn with ⟨prompt, hprompt, hc⟩ | hr
      · refine mem_numbers.mpr (.inl ⟨prompt, mem_append_left _ (mem_filter.mpr ⟨hprompt, ?_⟩), hc⟩)
        simpa [hc] using hfresh _ hm
      · exact mem_numbers.mpr (.inr hr)

theorem InHand.letGo {allowed : Bool} (h : InHand (x :: l) d)
    (hu : Unmixed d.log) : InHand l (d.letGo x.cookie allowed) := by
  have hkept : Kept (x.cookie :: l.map (·.cookie)) d := fun _ => h.inv
  exact h.next (hkept.letGo hu) ⟨[], by simp [Impl.letGo]⟩ (fun q hq => .inl hq) fun p hp => pending_letGo hp

/-- A message that is no question leaves the logins in hand. -/
theorem InHand.send {id : ℕ} {m : Message} (h : Unmixed d.log → InHand l d)
    (ho : Owned d) (hf : (d.find id).isSome) (hnone : m.names = none) (hm : ∀ q, m ≠ .consentRequest q)
    (hu : Unmixed (d.sendTo w id m).1.log) : InHand l (d.sendTo w id m).1 := by
  have hlog := (carries_sendTo d w id m).log
  have hu0 : Unmixed d.log := by
    obtain ⟨es, he⟩ := hlog
    rw [he] at hu
    exact hu.of_append
  obtain ⟨hg, hq⟩ := seat_sendTo d w id m
  have hkept : Kept (l.map (·.cookie)) d := fun hu => (h hu).inv
  have h0 := h hu0
  refine ⟨((kept_mild _).send w ⟨hkept, ho⟩ hf (fun c hc => by rw [hnone] at hc; cases hc) hm).1 hu, h0.nodup,
    fun x hx => mem_loginCookies_of_append hlog (h0.cookie x hx), ?_, ?_⟩
  · rw [hq]
    exact h0.unasked
  · rw [hg]
    exact h0.taken

/-- The question goes out, or the session ends and the login goes through. -/
theorem InHand.questionSeat
    (h : Unmixed d.log → InHand (x :: l) d) (ho : Owned d) (hu : Unmixed (d.questionSeat w session x).log) :
    InHand l (d.questionSeat w session x) := by
  have hu0 : Unmixed d.log := by
    obtain ⟨es, he⟩ := (carries_questionSeat d w session x).log
    rw [he] at hu
    exact hu.of_append
  have hopen := carries_openQuestion d w session x
  revert hu
  unfold Impl.questionSeat
  dsimp only
  generalize hrequest : Message.consentRequest _ = m
  rcases sendTo_cases (d.openQuestion w session x) w session m with ⟨-, hs⟩ | hs
  · rw [hs, if_pos rfl]
    intro hu
    have hkept : Kept (l.map (·.cookie)) (d.openQuestion w session x) := fun hu => ((h hu0).openQuestion ho hu).1
    have hnoted : Kept (l.map (·.cookie)) (((d.openQuestion w session x).use session).note
        (.sent session m (((d.openQuestion w session x).find session).bind (·.serving)))) :=
      hkept.same rfl rfl ⟨_, append_assoc _ _ _⟩ rfl rfl
    have huo : Unmixed (d.openQuestion w session x).log := Unmixed.of_append (Unmixed.of_append hu)
    obtain ⟨es, hlog⟩ := hopen.log
    refine (h hu0).next (hnoted hu) ⟨_, by rw [note, use, note, hlog, append_assoc, append_assoc]⟩ ?_ ?_
    · intro q hq
      have hq' : q ∈ (d.openQuestion w session x).seatQuestions := hq
      rw [((h hu0).openQuestion ho huo).2] at hq'
      exact (mem_append.mp hq').imp (fun h => h) fun hone => by rw [mem_singleton.mp hone]
    · exact fun p hp => ⟨p, hp, rfl, rfl⟩
  · rw [hs, if_neg (by simp)]
    intro hu
    have hended := endSession_spec (((d.openQuestion w session x).use session).note (.unreached session m)) session
      (some m)
    generalize hd : (((d.openQuestion w session x).use session).note (.unreached session m)).endSession session
      (some m) = d' at hu hended ⊢
    have hulog : ∃ es, d'.log = (d.openQuestion w session x).log ++ es := by
      obtain ⟨refusal, -, hlog⟩ := hended.log
      exact ⟨_, by rw [hlog, note, use, note, append_assoc, append_assoc]⟩
    have huo : Unmixed (d.openQuestion w session x).log := by
      obtain ⟨es, he⟩ := hulog
      have hud' : Unmixed d'.log := hu
      rw [he] at hud'
      exact hud'.of_append
    obtain ⟨hinv, hquestions⟩ := (h hu0).openQuestion ho huo
    -- The login's own question is lost with the session, and only that one.
    have hbusy : Kept (x.cookie :: l.map (·.cookie)) d' := by
      rw [← hd]
      refine Kept.ends (Kept.same (d := d.openQuestion w session x) (fun _ => ?_) rfl rfl
        ⟨_, append_assoc _ _ _⟩ rfl rfl) fun _ _ q hq e he hn => ?_
      · exact ⟨hinv.pending, hinv.logged, hinv.keys, hinv.cookies, hinv.questioned, hinv.untaken,
          fun p hp ht hd hb => hinv.kept p hp ht hd fun hmem => hb (mem_cons_of_mem _ hmem)⟩
      · have hsame : e = (d.nextSeatConnection, x.cookie) := by
          refine hinv.question he ?_ ?_
          · rw [hquestions]
            exact mem_append_right _ (mem_singleton_self _)
          · rw [hn]
            rw [← hrequest] at hq
            cases hq
            rfl
        rw [hsame]
        exact mem_cons_self
    have hclosed : Kept (x.cookie :: l.map (·.cookie)) (d'.closeQuestion d.nextSeatConnection) := by
      refine hbusy.closeQuestion fun hi q hq he p hp hc => .inr ?_
      have hq' : q ∈ (d.openQuestion w session x).seatQuestions := by
        rw [← show d'.seatQuestions = (d.openQuestion w session x).seatQuestions from hended.seatQuestions]
        exact hq
      have hsame : q = (d.nextSeatConnection, x.cookie) := by
        refine hinv.question hq' ?_ he
        rw [hquestions]
        exact mem_append_right _ (mem_singleton_self _)
      rw [hc, hsame]
      exact mem_cons_self
    refine (h hu0).next (hclosed.letGo hu) ?_ ?_ ?_
    · obtain ⟨es, he⟩ := hopen.log
      obtain ⟨es', he'⟩ := hulog
      exact ⟨es ++ es', by rw [Impl.letGo, Impl.closeQuestion, he', he, append_assoc]⟩
    · intro q hq
      have hq' : q ∈ (d.openQuestion w session x).seatQuestions := by
        rw [← show d'.seatQuestions = (d.openQuestion w session x).seatQuestions from hended.seatQuestions]
        exact mem_of_mem_filter hq
      rw [hquestions] at hq'
      exact (mem_append.mp hq').imp (fun h => h) fun hone => by rw [mem_singleton.mp hone]
    · intro p hp
      obtain ⟨p0, hp0, hsame⟩ := pending_letGo hp
      rw [show (d'.closeQuestion d.nextSeatConnection).seatGate = d.seatGate from hended.seatGate] at hp0
      exact ⟨p0, hp0, hsame⟩

theorem InHand.askSeat (h : Unmixed d.log → InHand (x :: l) d)
    (ho : Owned d) (hu : Unmixed (d.askSeat w x).log) : InHand l (d.askSeat w x) := by
  rcases askSeat_cases d w x with hs | ⟨session, m, allowed, hf, hnone, hm, hs⟩ | ⟨session, -, hs⟩
  · rw [hs] at hu ⊢
    exact (h hu).letGo hu
  · rw [hs] at hu ⊢
    exact (InHand.send h ho hf hnone hm hu).letGo hu
  · rw [hs] at hu ⊢
    exact InHand.questionSeat h ho hu

theorem InHand.loop : ∀ (l : List Waiting) {d : Impl}, (Unmixed d.log → InHand l d) → Owned d →
    Kept [] (l.foldl (fun d waiting => d.askSeat w waiting) d)
  | [], _, h, _ => fun hu => (h hu).inv
  | x :: l, d, h, ho => by
    have hcarry := carries_askSeat d w x
    exact InHand.loop l (fun hu => InHand.askSeat h ho hu) (hcarry.owned ho)

/-- The logins that are taken from the gate are in hand. -/
theorem Kept.takeLogins (h : Kept [] d) (hu : Unmixed d.log) : InHand d.newLogins d.takeLogins := by
  have hi := h hu
  have hpending : d.takeLogins.seatGate.pending = d.seatGate.pending.map fun p =>
      if p.taken = false ∧ p.done = false then { p with taken := true } else p := rfl
  have hlogins : d.newLogins = (d.seatGate.pending.filter fun p => ! p.taken && ! p.done).map fun p =>
      ⟨p.cookie, p.account⟩ := rfl
  have hnew : ∀ x ∈ d.newLogins, ∃ p ∈ d.seatGate.pending, p.taken = false ∧ p.done = false ∧ p.cookie = x.cookie := by
    intro x hx
    obtain ⟨p, hp, rfl⟩ := mem_map.mp hx
    obtain ⟨hp, hnot⟩ := mem_filter.mp hp
    simp only [Bool.and_eq_true, Bool.not_eq_eq_eq_not] at hnot
    exact ⟨p, hp, hnot.1, hnot.2, rfl⟩
  have hcookies : d.newLogins.map (·.cookie) =
      (d.seatGate.pending.filter fun p => ! p.taken && ! p.done).map (·.cookie) := by
    rw [hlogins, map_map]
    rfl
  have hmem : ∀ p ∈ d.takeLogins.seatGate.pending, ∃ p0 ∈ d.seatGate.pending, p0.cookie = p.cookie ∧ p0.done = p.done ∧
      (p0.taken = p.taken ∨ p.taken = true ∧ p.cookie ∈ d.newLogins.map (·.cookie)) := by
    intro p hp
    obtain ⟨p0, hp0, rfl⟩ := mem_map.mp hp
    split_ifs with hc
    · refine ⟨p0, hp0, rfl, rfl, .inr ⟨rfl, ?_⟩⟩
      rw [hcookies]
      exact mem_map.mpr ⟨p0, mem_filter.mpr ⟨hp0, by simp [hc.1, hc.2]⟩, rfl⟩
    · exact ⟨p0, hp0, rfl, rfl, .inl rfl⟩
  refine ⟨⟨?_, fun p hp => ?_, hi.keys, hi.cookies, hi.questioned, fun p hp ht q hq => ?_, fun p hp ht hd hb => ?_⟩,
    ?_, fun x hx => ?_, fun x hx q hq => ?_, fun x hx p hp hc => ?_⟩
  · have hsame : d.takeLogins.seatGate.pending.map (·.cookie) = d.seatGate.pending.map (·.cookie) := by
      rw [hpending, map_map]
      refine map_congr_left fun p _ => ?_
      simp only [Function.comp_apply]
      split_ifs <;> rfl
    rw [hsame]
    exact hi.pending
  · obtain ⟨p0, hp0, hc, -⟩ := hmem p hp
    rw [← hc]
    exact hi.logged p0 hp0
  · obtain ⟨p0, hp0, hc, -, ht0⟩ := hmem p hp
    rw [← hc]
    refine hi.untaken p0 hp0 ?_ q hq
    rcases ht0 with ht0 | ⟨ht0, -⟩
    · exact ht0.trans ht
    · rw [ht] at ht0
      cases ht0
  · obtain ⟨p0, hp0, hc, hd0, ht0⟩ := hmem p hp
    rcases ht0 with ht0 | ⟨-, hbusy⟩
    · rw [← hc]
      exact hi.kept p0 hp0 (ht0.trans ht) (hd0.trans hd) (by simp)
    · exact absurd hbusy hb
  · rw [hcookies]
    exact hi.pending.sublist (filter_sublist.map _)
  · obtain ⟨p, hp, -, -, hc⟩ := hnew x hx
    rw [← hc]
    exact hi.logged p hp
  · obtain ⟨p, hp, ht, -, hc⟩ := hnew x hx
    rw [← hc]
    exact hi.untaken p hp ht q hq
  · obtain ⟨p0, hp0, rfl⟩ := mem_map.mp hp
    obtain ⟨p1, hp1, ht1, hd1, hc1⟩ := hnew x hx
    split_ifs at hc ⊢ with hnot
    · rfl
    · have hsame : p0 = p1 := inj_on_of_nodup_map hi.pending hp0 hp1 (hc.trans hc1.symm)
      rw [hsame] at hnot
      exact absurd ⟨ht1, hd1⟩ hnot

theorem Kept.askTheSeat (h : Kept [] d) (ho : Owned d) : Kept [] (d.askTheSeat w) := by
  have htake : Carries d d.takeLogins := .of_log [] (by simp [Impl.takeLogins]) rfl rfl (fun _ => .inr) rfl
  exact InHand.loop d.newLogins (fun hu => h.takeLogins hu) (htake.owned ho)

/-! ### The gate -/

/-- A login comes with a cookie of its own. -/
theorem Kept.login {account : Text} (h : Kept [] d) : Kept [] (d.login account) := by
  unfold Impl.login
  rcases d.seatGate.begin_cases account with hb | ⟨pending, hb, hpending⟩
  · rw [hb]
    exact h.same rfl rfl ⟨_, rfl⟩ rfl rfl
  · rw [hb]
    intro hu
    have hi := h (Unmixed.of_append hu)
    have hnew : d.seatGate.nextCookie ∉ loginCookies d.log := by
      have hcookies := hu.cookies
      rw [loginCookies_append] at hcookies
      intro hm
      exact (nodup_append.mp hcookies).2.2 _ hm _ (mem_singleton_self _) rfl
    have hmono : ∀ k ∈ loginCookies d.log, k ∈ loginCookies (d.log ++ [.login d.seatGate.nextCookie]) := by
      intro k hk
      rw [loginCookies_append]
      exact mem_append_left _ hk
    rcases hpending with rfl | ⟨rfl, hfresh⟩
    · exact ⟨hi.pending, fun p hp => hmono _ (hi.logged p hp), hi.keys, hi.cookies,
        fun q hq => hmono _ (hi.questioned q hq), hi.untaken, hi.kept⟩
    · refine ⟨?_, fun p hp => ?_, hi.keys, hi.cookies, fun q hq => hmono _ (hi.questioned q hq), fun p hp ht q hq => ?_,
        fun p hp ht hd hbusy => ?_⟩
      · rw [map_append]
        refine List.Nodup.append hi.pending (nodup_singleton _) fun k hk hone => ?_
        obtain ⟨p, hp, rfl⟩ := mem_map.mp hk
        exact hfresh p hp (mem_singleton.mp hone)
      · rcases mem_append.mp hp with hp | hp
        · exact hmono _ (hi.logged p hp)
        · cases mem_singleton.mp hp
          exact mem_loginCookies.mpr (mem_append_right _ (mem_singleton_self _))
      · rcases mem_append.mp hp with hp | hp
        · exact hi.untaken p hp ht q hq
        · cases mem_singleton.mp hp
          intro he
          have hmem := hi.questioned q hq
          rw [he] at hmem
          exact hnew hmem
      · rcases mem_append.mp hp with hp | hp
        · exact hi.kept p hp ht hd hbusy
        · cases mem_singleton.mp hp
          cases ht

theorem Kept.awaited {cookie : ℕ} (h : Kept [] d) :
    Kept [] { d with seatGate := (d.seatGate.awaited cookie).1 } := by
  intro hu
  have hi := h hu
  have hsub : (d.seatGate.awaited cookie).1.pending.Sublist d.seatGate.pending := filter_sublist
  exact ⟨hi.pending.sublist (hsub.map _), fun p hp => hi.logged p (hsub.subset hp), hi.keys, hi.cookies, hi.questioned,
    fun p hp => hi.untaken p (hsub.subset hp), fun p hp => hi.kept p (hsub.subset hp)⟩

theorem Kept.releaseAll (h : Kept [] d) : Kept [] { d with seatGate := d.seatGate.releaseAll } := by
  intro hu
  have hi := h hu
  refine ⟨?_, fun p hp => ?_, hi.keys, hi.cookies, hi.questioned, fun p hp ht => ?_, fun p hp ht hd => ?_⟩
  · simpa [SeatTakeoverGate.releaseAll, Function.comp_def] using hi.pending
  · obtain ⟨p0, hp0, rfl⟩ := mem_map.mp hp
    exact hi.logged p0 hp0
  · obtain ⟨p0, hp0, rfl⟩ := mem_map.mp hp
    exact hi.untaken p0 hp0 ht
  · obtain ⟨p0, hp0, rfl⟩ := mem_map.mp hp
    cases hd

/-! ### Along a run -/

theorem kept_closed : Closed (Kept []) where
  quiet := (kept_mild []).quiet
  ends := (kept_mild []).ends
  handOver h ho hs hc _ := ((kept_mild []).handOver _ ⟨h, ho⟩ (by rw [hs]; rfl) hc).1
  askConsent h ho hf hc := ((kept_mild []).askConsent _ ⟨h, ho⟩ hf hc).1
  resolve h ho hr := h.resolve ho hr
  askTheSeat h ho := h.askTheSeat ho
  disconnect h ho hf := ((kept_mild []).receiveDisconnect _ ⟨h, ho⟩ hf).1
  answer h _ := h.answer
  stats h ho hf hs := ((kept_mild []).receiveStats ⟨h, ho⟩ hf hs).1
  expire h _ := h.expire
  accept {d} h _ := by
    unfold acceptClient
    split_ifs
    · exact h
    · exact h.same rfl rfl ⟨_, rfl⟩ rfl rfl
  login h _ := h.login
  awaited h _ := h.awaited
  releaseAll h _ := h.releaseAll
  opened h _ _ _ _ := h.same rfl rfl ⟨[], by simp⟩ rfl rfl
  terminate h ho hf := ((kept_mild []).terminate _ ⟨h, ho⟩ hf).1

/-- The one question of a cookie. -/
theorem filter_cookie : ∀ {l : List (ℕ × ℕ)} {q : ℕ × ℕ}, (l.map (·.2)).Nodup → q ∈ l →
    (l.filter fun e => e.2 == q.2) = [q]
  | [], _, _, hq => by cases hq
  | e :: l, q, h, hq => by
    rw [map_cons, nodup_cons] at h
    rcases mem_cons.mp hq with rfl | hq
    · rw [filter_cons_of_pos (by simp), filter_eq_nil_iff.mpr]
      intro e he hsame
      exact h.1 (mem_map.mpr ⟨e, he, by simpa using hsame⟩)
    · rw [filter_cons_of_neg, filter_cookie h.2 hq]
      intro hsame
      exact h.1 (mem_map.mpr ⟨q, hq, (beq_iff_eq.mp hsame).symm⟩)

theorem SeatInv.loginsKept (h : SeatInv [] d) : LoginsKept d := by
  intro p hp ht hd
  obtain ⟨n, hm, hn⟩ := h.kept p hp ht hd (by simp)
  exact ⟨n, filter_cookie h.cookies hm, mem_numbers.mp hn⟩

/-- **No login at the machine is forgotten** in an attended run: with at most
2^64 logins, at most 2^63 questions about them, and the numbers of the clients
below those of the questions. -/
theorem run_loginsKept (options : Options) (w : World) (table : List (StoredSession × Option ℕ))
    (es : List (World × Event)) (hl : (loginCookies ((start options w table).run es).log).length ≤ 2 ^ 64)
    (hs : seats ((start options w table).run es).log ≤ 2 ^ 63)
    (hc : ∀ c, .accepted c ∈ ((start options w table).run es).log → c < seatConnectionBit)
    (ha : Attended ((start options w table).run es).log) : LoginsKept ((start options w table).run es) := by
  have hfresh := start_fresh options w table
  have hstart : Kept [] (start options w table) := by
    intro _
    refine ⟨?_, ?_, ?_, ?_, ?_, ?_, ?_⟩
    all_goals simp [hfresh.seatGate, hfresh.seatQuestions]
  have hnumbering := (start_numbers options w table es).1.counted
  have hunmixed : Unmixed ((start options w table).run es).log := by
    refine ⟨?_, ?_, fun c hacc hseat => ?_, ha⟩
    · rw [hnumbering.2.1]
      exact counted_nodup hl
    · rw [hnumbering.1.1]
      exact counted_nodup (by omega)
    · rw [hnumbering.1.1] at hseat
      obtain ⟨k, hk, rfl⟩ := mem_map.mp hseat
      rw [mem_range] at hk
      have := hc _ hacc
      unfold seatConnectionBit at this
      omega
  exact ((kept_closed.run es ⟨hstart, hfresh.owned⟩).1 hunmixed).loginsKept

/-! ### A session that ends under a question -/

/-- Somebody logs in at the machine while a client holds the session, and is
asked about. -/
def loginAsked : List (World × Event) :=
  calmly (arriving 1 (text "alice") ++ [.tick, .login (text "alice"), .tick])

/-- The login is taken, has no answer yet and is asked about. -/
theorem loginAsked_loginsKept :
    ⟨1, text "alice", true, false, true⟩ ∈ ((start { noPam := true } {} []).run loginAsked).seatGate.pending ∧
      LoginsKept ((start { noPam := true } {} []).run loginAsked) := by
  have hclients : (((start { noPam := true } {} []).run loginAsked).log.all fun e => match e with
      | .accepted c => decide (c < seatConnectionBit)
      | .ended _ _ _ _ => false
      | _ => true) = true := by decide
  refine ⟨by decide, run_loginsKept _ _ _ _ (by decide) (by decide) (fun c hc => ?_) fun _ _ _ _ he => ?_⟩
  · simpa using all_eq_true.mp hclients _ hc
  · exact absurd (all_eq_true.mp hclients _ he) (by simp)

/-- **The session ends and the login waits on**: its question is gone and
nothing answers it any more. -/
theorem end_forgets_login : ¬ ∀ (options : Options) (w : World) (table : List (StoredSession × Option ℕ))
    (es : List (World × Event)), LoginsKept ((start options w table).run es) := by
  intro h
  have hkept := h { noPam := true } {} [] (loginAsked ++ calmly [.readAgent 1 [] false])
  have hwaits : ⟨1, text "alice", true, false, true⟩ ∈
      ((start { noPam := true } {} []).run (loginAsked ++ calmly [.readAgent 1 [] false])).seatGate.pending := by decide
  have hgone : ((start { noPam := true } {} []).run (loginAsked ++ calmly [.readAgent 1 [] false])).numbers = [] := by
    decide
  obtain ⟨n, -, hn⟩ := hkept _ hwaits rfl rfl
  rw [← mem_numbers, hgone] at hn
  cases hn

end Impl
end Daemon
end Farland
