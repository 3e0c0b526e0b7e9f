/-
# What a run of the daemon preserves

The induction over runs, once for all invariants. Most of what a handler does
leaves alone what the questions and the clients depend on (`Quiet`); the rest
are the few operations in `Closed`. An invariant that these keep holds along
every run (`Closed.run`), and the handlers are taken apart only here.

`Owned` is the invariant that the handlers themselves need: every client that
a session holds came from `accept_client`, and every question has the number
of a client or of a login at the machine.
-/
import Farland.Daemon.Impl

namespace Farland
namespace Daemon

open Server Server.Broker List

/-- What the invariants read of a record. -/
def Live.essence (s : Live) : ℕ × Option Authenticated × Option Holder := (s.id, s.asking, s.serving)

variable {d d' : Impl} {f : Live → Live} {client : Authenticated} {s : Live}

/-- A number that the daemon gave to a client or to a question of a login. -/
def Numbered (log : List Entry) (connection : ℕ) : Prop :=
  .accepted connection ∈ log ∨ ∃ cookie, .seatAsked connection cookie ∈ log

/-- An entry that the invariants read nothing from. -/
def Entry.Benign (log : List Entry) : Entry → Prop
  | .used _ there => there = true
  | .refused _ _ _ | .delivered _ _ _ _ _ | .brought _ _ _ => True
  | .sent _ m _ | .unreached _ m => (∀ c, m.names = some c → c ≠ 0 ∨ Numbered log c) ∧ ∀ q, m ≠ .consentRequest q
  | _ => False

theorem Numbered.mono {log : List Entry} {c : ℕ} (h : Numbered log c) (es : List Entry) : Numbered (log ++ es) c :=
  h.imp (mem_append_left _) fun ⟨k, hk⟩ => ⟨k, mem_append_left _ hk⟩

theorem Entry.Benign.mono {log : List Entry} {e : Entry} (h : e.Benign log) (es : List Entry) :
    e.Benign (log ++ es) := by
  cases e with
  | sent _ m _ | unreached _ m => exact ⟨fun c hc => (h.1 c hc).imp id fun hn => hn.mono es, h.2⟩
  | _ => exact h

namespace Impl

/-- `accept_client` gave out this number. -/
def Accepted (d : Impl) (connection : ℕ) : Prop := .accepted connection ∈ d.log

/-- The clients that a session has. -/
def clients (d : Impl) : List Authenticated := d.live.flatMap fun s => s.waiting.toList ++ s.asking.toList

/-- The numbers of the questions that are out or over. -/
def numbers (d : Impl) : List ℕ := d.consent.prompts.map (·.connection) ++ d.resolutions.map (·.connection)

/-- Clients came from `accept_client`, and questions have numbers. -/
structure Owned (d : Impl) : Prop where
  authenticating : ∀ n ∈ d.authenticating, d.Accepted n
  clients : ∀ c ∈ d.clients, d.Accepted c.id
  numbers : ∀ c ∈ d.numbers, Numbered d.log c
  questions : ∀ q ∈ d.seatQuestions, ∃ cookie, .seatAsked q.1 cookie ∈ d.log

/-- A step that does nothing to questions and holders. -/
structure Quiet (d d' : Impl) : Prop where
  consent : d'.consent = d.consent
  resolutions : d'.resolutions = d.resolutions
  seatGate : d'.seatGate = d.seatGate
  seatQuestions : d'.seatQuestions = d.seatQuestions
  nextSeatConnection : d'.nextSeatConnection = d.nextSeatConnection
  nextConnection : d'.nextConnection = d.nextConnection
  live : d'.live.map Live.essence = d.live.map Live.essence
  clients : ∀ c ∈ d'.clients, d'.Accepted c.id ∨ c ∈ d.clients
  authenticating : ∀ n ∈ d'.authenticating, n ∈ d.authenticating
  log : ∃ es, d'.log = d.log ++ es ∧ ∀ e ∈ es, e.Benign d'.log

/-! ### Records -/

@[simp] theorem find_use (d : Impl) (i id : ℕ) : (d.use i).find id = d.find id := rfl

variable {id : ℕ}

theorem mem_of_find (h : d.find id = some s) : s ∈ d.live ∧ s.id = id := by
  refine ⟨mem_of_find?_eq_some h, ?_⟩
  have := find?_some h
  simpa using this

theorem find_isSome_iff : (d.find id).isSome ↔ ∃ s ∈ d.live, s.id = id := by
  unfold find
  simp

theorem mem_clients {c : Authenticated} :
    c ∈ d.clients ↔ ∃ s ∈ d.live, s.waiting = some c ∨ s.asking = some c := by
  simp [clients]

theorem mem_clients_of_live (h : d'.live = d.live) {c : Authenticated} (hc : c ∈ d'.clients) :
    c ∈ d.clients := by
  unfold clients at hc ⊢
  rwa [h] at hc

theorem mem_updateFirst : ∀ {l : List Live}, s ∈ updateFirst id f l → s ∈ l ∨ ∃ s0 ∈ l, s0.id = id ∧ s = f s0
  | [], h => by cases h
  | a :: l, h => by
    unfold updateFirst at h
    split_ifs at h with ha
    · rcases mem_cons.mp h with rfl | h
      · exact .inr ⟨a, mem_cons_self, ha, rfl⟩
      · exact .inl (mem_cons_of_mem _ h)
    · rcases mem_cons.mp h with rfl | h
      · exact .inl mem_cons_self
      · rcases mem_updateFirst h with h | ⟨s0, h0, h1, h2⟩
        · exact .inl (mem_cons_of_mem _ h)
        · exact .inr ⟨s0, mem_cons_of_mem _ h0, h1, h2⟩

/-- A change of one record that leaves `g` alone. -/
theorem map_updateFirst {α : Type} {g : Live → α} (h : ∀ s, g (f s) = g s) :
    ∀ l : List Live, (updateFirst id f l).map g = l.map g
  | [] => rfl
  | a :: l => by
    unfold updateFirst
    split_ifs
    · simp [h]
    · simp [map_updateFirst h l]

theorem find?_updateFirst (h : ∀ s, (f s).id = s.id) (i : ℕ) : ∀ l : List Live,
    (updateFirst id f l).find? (fun s => s.id == i) =
      (l.find? fun s => s.id == i).map fun s => if s.id = id then f s else s
  | [] => rfl
  | a :: l => by
    unfold updateFirst
    by_cases ha : a.id = id
    · rw [if_pos ha]
      by_cases hi : a.id = i
      · simp [h, hi, ha ▸ hi]
      · have hne : ∀ s, (l.find? fun s => s.id == i) = some s → ¬ s.id = id := by
          intro s hs he
          have := find?_some hs
          simp only [beq_iff_eq] at this
          omega
        rw [find?_cons_of_neg (by simpa [h] using hi), find?_cons_of_neg (by simpa using hi)]
        cases hs : l.find? fun s => s.id == i with
        | none => rfl
        | some s => simp [hne s hs]
    · rw [if_neg ha]
      by_cases hi : a.id = i
      · rw [find?_cons_of_pos (by simpa using hi), find?_cons_of_pos (by simpa using hi)]
        simp [ha]
      · rw [find?_cons_of_neg (by simpa using hi), find?_cons_of_neg (by simpa using hi)]
        exact find?_updateFirst h i l

/-- What a write leaves in the records. -/
theorem find_modify (h : ∀ s, (f s).id = s.id) (i : ℕ) :
    (d.modify id f).find i = (d.find i).map fun s => if s.id = id then f s else s :=
  find?_updateFirst h i d.live

theorem find_modify_self (h : ∀ s, (f s).id = s.id) (hs : d.find id = some s) :
    (d.modify id f).find id = some (f s) := by
  rw [find_modify h, hs, Option.map_some, if_pos (mem_of_find hs).2]

theorem isSome_find_modify (h : ∀ s, (f s).id = s.id) (i : ℕ) :
    ((d.modify id f).find i).isSome = (d.find i).isSome := by
  rw [find_modify h, Option.isSome_map]

/-- What `find` gives depends on the essence only, as far as the essence goes. -/
theorem find_essence (h : d'.live.map Live.essence = d.live.map Live.essence) (id : ℕ) :
    (d'.find id).map Live.essence = (d.find id).map Live.essence := by
  have hfind : ∀ l : List Live, (l.find? fun s => s.id == id).map Live.essence =
      (l.map Live.essence).find? fun e => e.1 == id := by
    intro l
    rw [find?_map]
    rfl
  unfold find
  rw [hfind, hfind, h]

/-! ### Steps and what they carry over -/

/-- The history grows; clients and numbers come from the state before. -/
structure Carries (d d' : Impl) : Prop where
  log : ∃ es, d'.log = d.log ++ es
  authenticating : ∀ n ∈ d'.authenticating, n ∈ d.authenticating
  clients : ∀ c ∈ d'.clients, d'.Accepted c.id ∨ c ∈ d.clients
  numbers : ∀ c ∈ d'.numbers, Numbered d'.log c ∨ c ∈ d.numbers
  questions : ∀ q ∈ d'.seatQuestions, (∃ cookie, .seatAsked q.1 cookie ∈ d'.log) ∨ q ∈ d.seatQuestions

theorem Carries.mem_log (h : Carries d d') {e : Entry} (he : e ∈ d.log) : e ∈ d'.log := by
  obtain ⟨es, hlog⟩ := h.log
  rw [hlog]
  exact mem_append_left _ he

theorem Carries.numbered (h : Carries d d') {c : ℕ} (hc : Numbered d.log c) : Numbered d'.log c := by
  obtain ⟨es, hlog⟩ := h.log
  rw [hlog]
  exact hc.mono es

theorem Carries.refl (d : Impl) : Carries d d :=
  ⟨⟨[], by simp⟩, fun _ h => h, fun _ => .inr, fun _ => .inr, fun _ => .inr⟩

theorem Carries.trans {a b c : Impl} (h : Carries a b) (h' : Carries b c) : Carries a c := by
  obtain ⟨es, he⟩ := h.log
  obtain ⟨es', he'⟩ := h'.log
  refine ⟨⟨es ++ es', by rw [he', he, append_assoc]⟩, fun n hn => h.authenticating n (h'.authenticating n hn),
    fun k hk => ?_, fun n hn => ?_, fun q hq => ?_⟩
  · rcases h'.clients k hk with hk | hk
    · exact .inl hk
    · exact (h.clients k hk).imp (fun hacc => h'.mem_log hacc) id
  · rcases h'.numbers n hn with hn | hn
    · exact .inl hn
    · exact (h.numbers n hn).imp (fun hnum => h'.numbered hnum) id
  · rcases h'.questions q hq with hq | hq
    · exact .inl hq
    · exact (h.questions q hq).imp (fun ⟨k, hk⟩ => ⟨k, h'.mem_log hk⟩) id

theorem Carries.owned (h : Carries d d') (ho : Owned d) : Owned d' :=
  ⟨fun n hn => h.mem_log (ho.authenticating n (h.authenticating n hn)),
    fun c hc => (h.clients c hc).elim id fun hc => h.mem_log (ho.clients c hc),
    fun c hc => (h.numbers c hc).elim id fun hc => h.numbered (ho.numbers c hc),
    fun q hq => (h.questions q hq).elim id fun hq => (ho.questions q hq).imp fun _ hk => h.mem_log hk⟩

/-- A step that adds to the history only. -/
theorem Carries.of_log (es : List Entry) (hlog : d'.log = d.log ++ es) (hlive : d'.live = d.live)
    (hauth : d'.authenticating = d.authenticating) (hnum : ∀ c ∈ d'.numbers, Numbered d'.log c ∨ c ∈ d.numbers)
    (hq : d'.seatQuestions = d.seatQuestions) : Carries d d' :=
  ⟨⟨es, hlog⟩, fun _ hn => hauth ▸ hn, fun _ hc => .inr (mem_clients_of_live hlive hc), hnum, fun _ h => .inr (hq ▸ h)⟩

theorem numbers_of_eq (h : d'.consent = d.consent) (h' : d'.resolutions = d.resolutions) :
    d'.numbers = d.numbers := by
  rw [numbers, numbers, h, h']

theorem mem_numbers {c : ℕ} :
    c ∈ d.numbers ↔ (∃ p ∈ d.consent.prompts, p.connection = c) ∨ ∃ r ∈ d.resolutions, r.connection = c := by
  simp [numbers]

/-- Prompts that are over leave their numbers to what they resolved to. -/
theorem numbers_resolved {consent : ConsentBroker} (gone : List Prompt) (result : Prompt → Resolved)
    (hprompts : (consent.prompts ++ gone).Perm d.consent.prompts) (hresult : ∀ p, (result p).connection = p.connection) :
    ({ d with consent, resolutions := d.resolutions ++ gone.map result } : Impl).numbers.Perm d.numbers := by
  have hgone : (gone.map result).map (·.connection) = gone.map (·.connection) := by simp [hresult]
  have hswap := (perm_append_comm : (d.resolutions.map (·.connection) ++ gone.map (·.connection)).Perm _)
  have hkept := (hprompts.map (·.connection)).append_right (d.resolutions.map (·.connection))
  rw [map_append, append_assoc] at hkept
  unfold numbers
  rw [map_append, hgone]
  exact (hswap.append_left _).trans hkept

theorem numbers_release (d : Impl) (session : ℕ) : (d.release session).numbers.Perm d.numbers :=
  numbers_resolved _ _ (perm_append_comm.trans (filter_append_perm _ _)) fun _ => rfl

theorem numbers_expire (d : Impl) (now : Time) : (d.expire now).numbers.Perm d.numbers :=
  numbers_resolved _ _ (perm_append_comm.trans (filter_append_perm _ _)) fun _ => rfl

theorem numbers_answer (d : Impl) (session connection : ℕ) (a : ConsentAnswer) :
    (d.answer session connection a).numbers.Perm d.numbers := by
  have hperm := numbers_resolved (d.consent.find connection).toList (d.consent.answer · a)
    (perm_append_comm.trans (d.consent.answered_prompts connection a)) fun p => by simp
  rwa [← Option.toList_map, ← d.consent.answered_resolved] at hperm

theorem numbers_pop {r : Resolved} {rest : List Resolved} (hr : d.resolutions = r :: rest) :
    d.numbers.Perm (r.connection :: ({ d with resolutions := rest } : Impl).numbers) := by
  unfold numbers
  rw [hr, map_cons]
  exact perm_middle

theorem Quiet.carries (h : Quiet d d') : Carries d d' := by
  obtain ⟨es, he, -⟩ := h.log
  refine ⟨⟨es, he⟩, h.authenticating, h.clients, fun c hc => ?_, fun q hq => .inr (h.seatQuestions ▸ hq)⟩
  rw [numbers_of_eq h.consent h.resolutions] at hc
  exact .inr hc

theorem Quiet.refl (d : Impl) : Quiet d d :=
  ⟨rfl, rfl, rfl, rfl, rfl, rfl, rfl, fun _ => .inr, fun _ h => h, [], by simp, by simp⟩

theorem Quiet.trans {a b c : Impl} (h : Quiet a b) (h' : Quiet b c) : Quiet a c := by
  obtain ⟨es, he, hb⟩ := h.log
  obtain ⟨es', he', hb'⟩ := h'.log
  refine ⟨h'.consent.trans h.consent, h'.resolutions.trans h.resolutions, h'.seatGate.trans h.seatGate,
    h'.seatQuestions.trans h.seatQuestions, h'.nextSeatConnection.trans h.nextSeatConnection,
    h'.nextConnection.trans h.nextConnection, h'.live.trans h.live, (h.carries.trans h'.carries).clients,
    fun n hn => h.authenticating n (h'.authenticating n hn), es ++ es', by rw [he', he, append_assoc], fun e hm => ?_⟩
  rcases mem_append.mp hm with hm | hm
  · rw [he']
    exact (hb e hm).mono es'
  · exact hb' e hm

/-- A step that changes none of it. -/
theorem Quiet.of_eq (h1 : d'.consent = d.consent) (h2 : d'.resolutions = d.resolutions)
    (h3 : d'.seatGate = d.seatGate) (h4 : d'.seatQuestions = d.seatQuestions)
    (h5 : d'.nextSeatConnection = d.nextSeatConnection) (h6 : d'.nextConnection = d.nextConnection)
    (h7 : d'.live = d.live) (h8 : ∀ n ∈ d'.authenticating, n ∈ d.authenticating) (h9 : d'.log = d.log) : Quiet d d' :=
  ⟨h1, h2, h3, h4, h5, h6, by rw [h7], fun _ hc => .inr (mem_clients_of_live h7 hc), h8, [],
    by rw [h9, append_nil], by simp⟩

theorem quiet_registry (d : Impl) (r : SessionRegistry) : Quiet d { d with registry := r } :=
  .of_eq rfl rfl rfl rfl rfl rfl rfl (fun _ h => h) rfl

theorem quiet_rememberSessions (d : Impl) : Quiet d d.rememberSessions :=
  .of_eq rfl rfl rfl rfl rfl rfl rfl (fun _ h => h) rfl

theorem quiet_note {e : Entry} (h : e.Benign d.log) : Quiet d (d.note e) :=
  ⟨rfl, rfl, rfl, rfl, rfl, rfl, rfl, fun _ => .inr, fun _ h => h, [e], rfl, by simpa [note] using h.mono [e]⟩

theorem quiet_use (h : (d.find id).isSome) : Quiet d (d.use id) := quiet_note h

theorem quiet_refuse (d : Impl) (client : Authenticated) (errorInfo : ℕ) (reason : Text) :
    Quiet d (d.refuse client errorInfo reason) := quiet_note trivial

theorem clients_modify (hf : ∀ s c, (f s).waiting = some c ∨ (f s).asking = some c →
      d.Accepted c.id ∨ s.waiting = some c ∨ s.asking = some c) :
    ∀ c ∈ (d.modify id f).clients, (d.modify id f).Accepted c.id ∨ c ∈ d.clients := by
  intro c hc
  obtain ⟨s, hs, hc⟩ := mem_clients.mp hc
  rcases mem_updateFirst hs with hs | ⟨s0, hs0, _, rfl⟩
  · exact .inr (mem_clients.mpr ⟨s, hs, hc⟩)
  · rcases hf s0 c hc with h | h
    · exact .inl (mem_append_left _ h)
    · exact .inr (mem_clients.mpr ⟨s0, hs0, h⟩)

/-- A write that holds on to the clients and the holder. -/
theorem quiet_modify (hfind : (d.find id).isSome) (he : ∀ s, (f s).essence = s.essence)
    (hw : ∀ s c, (f s).waiting = some c → s.waiting = some c ∨ d.Accepted c.id) : Quiet d (d.modify id f) := by
  refine ⟨rfl, rfl, rfl, rfl, rfl, rfl, map_updateFirst he d.live, clients_modify fun s c hc => ?_, fun _ h => h,
    [.used id (d.find id).isSome], rfl, by simpa [Entry.Benign] using hfind⟩
  rcases hc with hc | hc
  · exact (hw s c hc).symm.imp (fun h => h) .inl
  · refine .inr (.inr ?_)
    rw [← hc]
    exact (congrArg (·.2.1) (he s)).symm

theorem Quiet.find_isSome (h : Quiet d d') (id : ℕ) : (d'.find id).isSome = (d.find id).isSome := by
  have := congrArg Option.isSome (find_essence h.live id)
  simpa using this

theorem carries_note (d : Impl) (e : Entry) : Carries d (d.note e) := .of_log [e] rfl rfl rfl (fun _ => .inr) rfl

theorem carries_use (d : Impl) (id : ℕ) : Carries d (d.use id) := carries_note d _

theorem carries_modify (hf : ∀ s c, (f s).waiting = some c ∨ (f s).asking = some c →
      d.Accepted c.id ∨ s.waiting = some c ∨ s.asking = some c) : Carries d (d.modify id f) :=
  ⟨⟨[.used id (d.find id).isSome], rfl⟩, fun _ h => h, clients_modify hf, fun _ => .inr, fun _ => .inr⟩

/-! ### Prompts -/

theorem carries_forget (d : Impl) (connection : ℕ) : Carries d (d.forget connection) := by
  refine .of_log _ rfl rfl rfl (fun c hc => .inr ?_) rfl
  rcases mem_numbers.mp hc with ⟨p, hp, rfl⟩ | ⟨r, hr, rfl⟩
  · exact mem_numbers.mpr (.inl ⟨p, mem_of_mem_filter hp, rfl⟩)
  · exact mem_numbers.mpr (.inr ⟨r, hr, rfl⟩)

theorem carries_ask {connection : ℕ} (session : ℕ) (who : Party) (now : Time)
    (h : Numbered d.log connection) : Carries d (d.ask session connection who now) := by
  refine .of_log _ rfl rfl rfl (fun c hc => ?_) rfl
  rcases mem_numbers.mp hc with ⟨p, hp, rfl⟩ | ⟨r, hr, rfl⟩
  · rcases mem_append.mp hp with hp | hp
    · exact .inr (mem_numbers.mpr (.inl ⟨p, mem_of_mem_filter hp, rfl⟩))
    · cases mem_singleton.mp hp
      exact .inl (h.mono _)
  · exact .inr (mem_numbers.mpr (.inr ⟨r, hr, rfl⟩))

theorem carries_answer (d : Impl) (session connection : ℕ) (a : ConsentAnswer) :
    Carries d (d.answer session connection a) :=
  .of_log _ rfl rfl rfl (fun _ hc => .inr ((d.numbers_answer session connection a).subset hc)) rfl

theorem carries_release (d : Impl) (session : ℕ) : Carries d (d.release session) :=
  .of_log _ rfl rfl rfl (fun _ hc => .inr ((d.numbers_release session).subset hc)) rfl

theorem carries_expire (d : Impl) (now : Time) : Carries d (d.expire now) :=
  .of_log _ rfl rfl rfl (fun _ hc => .inr ((d.numbers_expire now).subset hc)) rfl

/-! ### Ending and sending -/

/-- What the end of a session leaves. -/
structure Ended (d : Impl) (id : ℕ) (cause : Option Message) (d' : Impl) : Prop where
  consent : d'.consent = (d.consent.take id).1
  resolutions : d'.resolutions = d.resolutions
  seatGate : d'.seatGate = d.seatGate
  seatQuestions : d'.seatQuestions = d.seatQuestions
  nextSeatConnection : d'.nextSeatConnection = d.nextSeatConnection
  nextConnection : d'.nextConnection = d.nextConnection
  live : d'.live = d.live.filter fun s => s.id != id
  authenticating : d'.authenticating = d.authenticating
  log : ∃ refusal : List Entry, (∀ e ∈ refusal, ∃ c i r, e = .refused c i r) ∧
    d'.log = d.log ++ (.used id (d.find id).isSome :: .left .ended (d.consent.take id).2 :: (refusal ++
      [.ended id cause (d.consent.take id).2 d.undecided]))

theorem dropRecord_spec (d : Impl) (id : ℕ) (cause : Option Message) (abandoned : List Prompt) :
    (d.dropRecord id cause abandoned).consent = d.consent ∧
      (d.dropRecord id cause abandoned).resolutions = d.resolutions ∧
      (d.dropRecord id cause abandoned).seatGate = d.seatGate ∧
      (d.dropRecord id cause abandoned).seatQuestions = d.seatQuestions ∧
      (d.dropRecord id cause abandoned).nextSeatConnection = d.nextSeatConnection ∧
      (d.dropRecord id cause abandoned).nextConnection = d.nextConnection ∧
      ((d.dropRecord id cause abandoned).live = d.live.filter fun s => s.id != id) ∧
      (d.dropRecord id cause abandoned).authenticating = d.authenticating ∧
      (d.dropRecord id cause abandoned).log = d.log ++ [.ended id cause abandoned d.undecided] := by
  unfold dropRecord
  dsimp only
  split_ifs
  all_goals exact ⟨rfl, rfl, rfl, rfl, rfl, rfl, rfl, rfl, rfl⟩

theorem endSession_spec (d : Impl) (id : ℕ) (cause : Option Message) : Ended d id cause (d.endSession id cause) := by
  unfold endSession
  cases (d.find id).bind (·.asking) with
  | none =>
    obtain ⟨h1, h2, h3, h4, h5, h6, h7, h8, h9⟩ := dropRecord_spec ((d.use id).abandon id) id cause
      (d.consent.take id).2
    refine ⟨h1, h2, h3, h4, h5, h6, h7, h8, [], by simp, ?_⟩
    rw [h9]
    simp [abandon, use, note, undecided]
  | some client =>
    obtain ⟨h1, h2, h3, h4, h5, h6, h7, h8, h9⟩ := dropRecord_spec (((d.use id).abandon id).refuse client
      errinfoServerDeniedConnection (d.reasonFor id client)) id cause (d.consent.take id).2
    refine ⟨h1, h2, h3, h4, h5, h6, h7, h8,
      [.refused client.id errinfoServerDeniedConnection (d.reasonFor id client)], fun e he => ?_, ?_⟩
    · exact ⟨_, _, _, mem_singleton.mp he⟩
    · rw [h9]
      simp [abandon, use, note, refuse, undecided]

theorem Ended.carries {cause : Option Message} (h : Ended d id cause d') : Carries d d' := by
  obtain ⟨refusal, -, hlog⟩ := h.log
  refine ⟨⟨_, hlog⟩, fun n hn => h.authenticating ▸ hn, fun c hc => .inr ?_, fun c hc => .inr ?_,
    fun q hq => .inr (h.seatQuestions ▸ hq)⟩
  · obtain ⟨s, hs, hc⟩ := mem_clients.mp hc
    rw [h.live] at hs
    exact mem_clients.mpr ⟨s, mem_of_mem_filter hs, hc⟩
  · rcases mem_numbers.mp hc with ⟨p, hp, rfl⟩ | ⟨r, hr, rfl⟩
    · rw [h.consent] at hp
      exact mem_numbers.mpr (.inl ⟨p, mem_of_mem_filter hp, rfl⟩)
    · rw [h.resolutions] at hr
      exact mem_numbers.mpr (.inr ⟨r, hr, rfl⟩)

/-- A message reaches the agent, or the session ends. -/
theorem sendTo_cases (d : Impl) (w : World) (id : ℕ) (m : Message) :
    (d.find id).isSome ∧ d.sendTo w id m = ((d.use id).note (.sent id m ((d.find id).bind (·.serving))), true) ∨
    d.sendTo w id m = (((d.use id).note (.unreached id m)).endSession id (some m), false) := by
  unfold sendTo
  dsimp only
  split_ifs with hr
  · left
    refine ⟨?_, rfl⟩
    cases hf : d.find id with
    | none => simp [hf] at hr
    | some s => rfl
  · exact .inr rfl

theorem carries_endSession (d : Impl) (id : ℕ) (cause : Option Message) : Carries d (d.endSession id cause) :=
  (endSession_spec d id cause).carries

theorem carries_sendTo (d : Impl) (w : World) (id : ℕ) (m : Message) : Carries d (d.sendTo w id m).1 := by
  rcases sendTo_cases d w id m with ⟨-, h⟩ | h
  · rw [h]
    exact (carries_use d id).trans (carries_note _ _)
  · rw [h]
    exact ((carries_use d id).trans (carries_note _ _)).trans (carries_endSession _ _ _)

/-! ### Clients and questions -/

theorem quiet_noteUnlock (d : Impl) (w : World) (id : ℕ) (client : Authenticated) :
    Quiet d (d.noteUnlock w id client) := by
  unfold noteUnlock
  split
  · split_ifs
    · exact .of_eq rfl rfl rfl rfl rfl rfl rfl (fun _ h => h) rfl
    · exact .refl d
  · exact .refl d

theorem carries_sendClient (d : Impl) (w : World) (id : ℕ) (client : Authenticated) :
    Carries d (d.sendClient w id client) := by
  have hsent := ((carries_use d id).trans (quiet_noteUnlock _ w id client).carries).trans
    (carries_sendTo _ w id (newConnectionOf w client))
  unfold sendClient
  dsimp only
  split_ifs
  · exact hsent.trans (carries_modify fun _ _ h => .inr h)
  · exact hsent

theorem carries_connect (d : Impl) (id : ℕ) (client : Authenticated) : Carries d (d.connect id client) :=
  ((carries_use d id).trans (carries_note _ _)).trans (quiet_registry _ _).carries

theorem carries_handOver (d : Impl) (w : World) (id : ℕ) (client : Authenticated) :
    Carries d (d.handOver w id client) := by
  unfold handOver
  dsimp only
  split_ifs
  · exact ((carries_connect d id client).trans (carries_sendTo _ _ _ _)).trans (carries_sendClient _ _ _ _)
  · exact (carries_connect d id client).trans (carries_sendTo _ _ _ _)
  · exact (carries_connect d id client).trans (carries_sendClient _ _ _ _)

theorem carries_unask (d : Impl) (id : ℕ) : Carries d (d.modify id fun s => { s with asking := none }) :=
  carries_modify fun _ _ h => .inr (.inl (h.resolve_right (by simp)))

theorem carries_replaceAsking (d : Impl) (id : ℕ) : Carries d (d.replaceAsking id) := by
  unfold replaceAsking
  split
  · exact ((carries_unask d id).trans (carries_forget _ _)).trans (carries_note _ _)
  · exact carries_use d id

theorem carries_askConsent (w : World) (id : ℕ) (h : d.Accepted client.id) :
    Carries d (d.askConsent w id client) := by
  have h1 := carries_replaceAsking d id
  have h2 := h1.trans (carries_ask id (party client) w.now (.inl (h1.mem_log h)))
  refine Carries.trans (h2.trans (carries_modify fun s c hc => ?_)) (carries_sendTo _ _ _ _)
  rcases hc with hc | hc
  · exact .inr (.inl hc)
  · cases hc
    exact .inl (h2.mem_log h)

theorem carries_letGo (d : Impl) (cookie : ℕ) (allowed : Bool) : Carries d (d.letGo cookie allowed) :=
  .of_log [] (by simp [letGo]) rfl rfl (fun _ => .inr) rfl

theorem carries_closeQuestion (d : Impl) (connection : ℕ) : Carries d (d.closeQuestion connection) :=
  ⟨⟨[], by simp [closeQuestion]⟩, fun _ h => h, fun _ => .inr, fun _ => .inr, fun _ h => .inr (mem_of_mem_filter h)⟩

theorem carries_openQuestion (d : Impl) (w : World) (session : ℕ) (waiting : Waiting) :
    Carries d (d.openQuestion w session waiting) := by
  have hlog : (d.openQuestion w session waiting).log = ((d.use session).ask session d.nextSeatConnection
      { user := waiting.account } w.now).log ++ [.seatAsked d.nextSeatConnection waiting.cookie] := rfl
  refine ⟨⟨_, by rw [hlog, ask, use, note, append_assoc, append_assoc]⟩, fun _ h => h, fun _ => .inr,
    fun c hc => ?_, fun q hq => ?_⟩
  · rcases mem_numbers.mp hc with ⟨p, hp, rfl⟩ | ⟨r, hr, rfl⟩
    · rcases mem_append.mp hp with hp | hp
      · exact .inr (mem_numbers.mpr (.inl ⟨p, mem_of_mem_filter hp, rfl⟩))
      · cases mem_singleton.mp hp
        exact .inl (.inr ⟨waiting.cookie, by simp [openQuestion, ConsentBroker.promptOf]⟩)
    · exact .inr (mem_numbers.mpr (.inr ⟨r, hr, rfl⟩))
  · unfold openQuestion at hq
    dsimp only at hq
    split_ifs at hq
    · exact .inr hq
    · rcases mem_append.mp hq with hq | hq
      · exact .inr hq
      · cases mem_singleton.mp hq
        exact .inl ⟨waiting.cookie, by simp [openQuestion]⟩

theorem carries_questionSeat (d : Impl) (w : World) (session : ℕ) (waiting : Waiting) :
    Carries d (d.questionSeat w session waiting) := by
  have h := (carries_openQuestion d w session waiting).trans (carries_sendTo _ w session
    (.consentRequest { (d.consent.ask session d.nextSeatConnection { user := waiting.account } w.now).2 with
      fromSeat := true }))
  unfold questionSeat
  dsimp only
  split_ifs
  · exact h
  · exact (h.trans (carries_closeQuestion _ _)).trans (carries_letGo _ _ _)

/-- What is done about one login. -/
theorem askSeat_cases (d : Impl) (w : World) (waiting : Waiting) :
    d.askSeat w waiting = d.letGo waiting.cookie true ∨
    (∃ session m allowed, (d.find session).isSome ∧ m.names = none ∧ (∀ q, m ≠ .consentRequest q) ∧
      d.askSeat w waiting = (d.sendTo w session m).1.letGo waiting.cookie allowed) ∨
    ∃ session, (d.find session).isSome ∧ d.askSeat w waiting = d.questionSeat w session waiting := by
  unfold askSeat
  split_ifs with hu
  · exact .inl rfl
  cases hs : d.registry.findAccount waiting.account with
  | none => exact .inl rfl
  | some state =>
    dsimp only
    split_ifs with hc
    · exact .inl rfl
    have hfind : (d.find state.id).isSome := by
      cases hf : d.find state.id with
      | none => simp [hf] at hc
      | some s => rfl
    cases d.options.policy.seatTakeover with
    | always | never => exact .inr (.inl ⟨state.id, _, _, hfind, rfl, fun q h => (by cases h), rfl⟩)
    | ask => exact .inr (.inr ⟨state.id, hfind, rfl⟩)

theorem carries_askSeat (d : Impl) (w : World) (waiting : Waiting) : Carries d (d.askSeat w waiting) := by
  rcases askSeat_cases d w waiting with h | ⟨session, m, allowed, -, -, -, h⟩ | ⟨session, -, h⟩
  · rw [h]
    exact carries_letGo _ _ _
  · rw [h]
    exact (carries_sendTo _ _ _ _).trans (carries_letGo _ _ _)
  · rw [h]
    exact carries_questionSeat _ _ _ _

/-- A loop of steps that carry over. -/
theorem carries_foldl {α : Type} {f : Impl → α → Impl} (h : ∀ d a, Carries d (f d a)) :
    ∀ (l : List α) (d : Impl), Carries d (l.foldl f d)
  | [], d => .refl d
  | a :: l, d => (h d a).trans (carries_foldl h l (f d a))

theorem carries_askTheSeat (d : Impl) (w : World) : Carries d (d.askTheSeat w) := by
  have htake : Carries d d.takeLogins := .of_log [] (by simp [takeLogins]) rfl rfl (fun _ => .inr) rfl
  exact htake.trans (carries_foldl (fun d waiting => carries_askSeat d w waiting) d.newLogins d.takeLogins)

theorem carries_tellSeat (d : Impl) (w : World) (r : Resolved) : Carries d (d.tellSeat w r) := by
  unfold tellSeat
  dsimp only
  split_ifs
  · exact (carries_sendTo _ _ _ _).trans (carries_sendTo _ _ _ _)
  · exact carries_sendTo _ _ _ _
  · exact carries_sendTo _ _ _ _
  · exact .refl d

theorem carries_answerClient (d : Impl) (w : World) (r : Resolved) (client : Authenticated) :
    Carries d (d.answerClient w r client) := by
  unfold answerClient
  split_ifs
  · exact carries_handOver _ _ _ _
  · exact carries_note _ _

theorem carries_resolveClient (d : Impl) (w : World) (r : Resolved) : Carries d (d.resolveClient w r) := by
  unfold resolveClient
  split
  · exact .refl d
  · dsimp only
    split_ifs
    · exact .refl d
    · exact ((carries_unask _ _).trans (carries_sendTo _ _ _ _)).trans (carries_answerClient _ _ _ _)
    · exact ((carries_unask _ _).trans (carries_sendTo _ _ _ _)).trans (carries_note _ _)
    · exact (carries_unask _ _).trans (carries_answerClient _ _ _ _)

theorem carries_resolve {r : Resolved} {rest : List Resolved} (w : World) (h : d.resolutions = r :: rest) :
    Carries d (resolve { d with resolutions := rest } w r) := by
  have hpop : Carries d { d with resolutions := rest } := by
    refine .of_log [] (by simp) rfl rfl (fun c hc => .inr ?_) rfl
    rcases mem_numbers.mp hc with hp | ⟨r', hr, rfl⟩
    · exact mem_numbers.mpr (.inl hp)
    · exact mem_numbers.mpr (.inr ⟨r', by rw [h]; exact mem_cons_of_mem _ hr, rfl⟩)
  refine hpop.trans ?_
  unfold resolve
  split
  · exact (((carries_note _ _).trans (carries_tellSeat _ _ _)).trans (carries_letGo _ _ _)).trans
      (carries_closeQuestion _ _)
  · exact (carries_note _ _).trans (carries_resolveClient _ _ _)

theorem carries_disconnected (d : Impl) (w : World) (id connection : ℕ) :
    Carries d (d.disconnected w id connection) := by
  unfold disconnected
  refine Carries.trans ?_ (quiet_registry _ _).carries
  apply Carries.trans (carries_note d _)
  exact carries_modify fun _ _ h => .inr h

theorem carries_receiveDisconnect (d : Impl) (w : World) (id connection : ℕ) :
    Carries d (d.receiveDisconnect w id connection) := by
  have h := carries_disconnected d w id connection
  unfold receiveDisconnect
  dsimp only
  split
  · exact h
  · split_ifs
    · refine Carries.trans (h.trans ?_) (carries_release _ _)
      exact carries_modify fun _ _ h => .inr h
    · exact h.trans (carries_modify fun _ _ h => .inr h)
    · exact h

theorem carries_receiveStats (d : Impl) (id : ℕ) (stats : Stats) : Carries d (d.receiveStats id stats) := by
  unfold receiveStats
  refine Carries.trans ?_ ((quiet_registry _ _).carries.trans (carries_modify fun _ _ h => .inr h))
  split_ifs
  · exact .of_log _ rfl rfl rfl (fun _ => .inr) rfl
  · exact .refl d

theorem carries_terminate (d : Impl) (w : World) (id : ℕ) : Carries d (d.terminate w id) := by
  unfold terminate
  split
  · exact .refl d
  · refine Carries.trans (Carries.trans (Carries.trans ?_ (carries_sendTo _ _ _ _)) (quiet_registry _ _).carries)
      (carries_use _ _)
    exact carries_modify fun _ _ h => .inr h

/-! ### Invariants of runs -/

/-- A client that comes for a session and is not asked about, as the history
has it: the session's agent is there and nobody holds it as far as the
registry knows, or the client waited for the agent. -/
def Brings (d : Impl) (id connection : ℕ) (s : Live) : Prop :=
  (∃ known attached, .delivered id connection s.serving known attached ∈ d.log ∧
    (d.consent.policy.takeover = .ask → attached = false ∧ ∀ c, known = some c → c = 0)) ∨
  .brought id connection s.serving ∈ d.log

/-- The invariant with what the handlers need of the state. -/
def Holds (I : Impl → Prop) (d : Impl) : Prop := I d ∧ Owned d

/-- What every message other than a question keeps. -/
structure Sends (I : Impl → Prop) : Prop where
  quiet : ∀ {d d' : Impl}, I d → Owned d → Quiet d d' → I d'
  ends : ∀ {d : Impl} {id : ℕ} {cause : Option Message}, I d → Owned d → (d.find id).isSome →
    (∀ q, cause ≠ some (.consentRequest q)) → I (d.endSession id cause)

section Send

variable {I : Impl → Prop} (hI : Sends I)

include hI

theorem Sends.quiet' (h : Holds I d) (hq : Quiet d d') : Holds I d' := ⟨hI.quiet h.1 h.2 hq, hq.carries.owned h.2⟩

theorem Sends.ends' {id : ℕ} (h : Holds I d) (hf : (d.find id).isSome) : Holds I (d.endSession id none) :=
  ⟨hI.ends h.1 h.2 hf (fun q hq => by cases hq), (carries_endSession d id none).owned h.2⟩

/-- A message other than a question. -/
theorem Sends.send {id : ℕ} {m : Message} (w : World) (h : Holds I d) (hf : (d.find id).isSome)
    (hnames : ∀ c, m.names = some c → c ≠ 0 ∨ Numbered d.log c) (hm : ∀ q, m ≠ .consentRequest q) :
    Holds I (d.sendTo w id m).1 := by
  have huse := quiet_use hf
  rcases sendTo_cases d w id m with ⟨-, hs⟩ | hs
  · rw [hs]
    refine hI.quiet' h (huse.trans (quiet_note ⟨fun c hc => ?_, hm⟩))
    exact (hnames c hc).imp (fun h => h) fun hn => hn.mono _
  · rw [hs]
    have hq : Quiet d ((d.use id).note (.unreached id m)) := by
      refine huse.trans (quiet_note ⟨fun c hc => ?_, hm⟩)
      exact (hnames c hc).imp (fun h => h) fun hn => hn.mono _
    have h' := hI.quiet' h hq
    refine ⟨hI.ends h'.1 h'.2 hf ?_, (carries_endSession _ _ _).owned h'.2⟩
    intro q hc
    exact hm q (Option.some.inj hc)

end Send

/-- What the gates for clients and logins and the answers to questions keep. -/
structure Gates (I : Impl → Prop) : Prop where
  answer : ∀ {d : Impl} {id connection : ℕ} {a : ConsentAnswer}, I d → Owned d → I (d.answer id connection a)
  expire : ∀ {d : Impl} {now : Time}, I d → Owned d → I (d.expire now)
  accept : ∀ {d : Impl}, I d → Owned d → I d.acceptClient
  login : ∀ {d : Impl} {account : Text}, I d → Owned d → I (d.login account)
  awaited : ∀ {d : Impl} {cookie : ℕ}, I d → Owned d → I { d with seatGate := (d.seatGate.awaited cookie).1 }
  releaseAll : ∀ {d : Impl}, I d → Owned d → I { d with seatGate := d.seatGate.releaseAll }

/-- What every operation of the loop keeps. -/
structure Closed (I : Impl → Prop) : Prop extends Sends I, Gates I where
  handOver : ∀ {d : Impl} {w : World} {id : ℕ} {s : Live} {client : Authenticated}, I d → Owned d →
    d.find id = some s → d.Accepted client.id → d.Brings id client.id s → I (d.handOver w id client)
  askConsent : ∀ {d : Impl} {w : World} {id : ℕ} {client : Authenticated}, I d → Owned d → (d.find id).isSome →
    d.Accepted client.id → I (d.askConsent w id client)
  resolve : ∀ {d : Impl} {w : World} {r : Resolved} {rest : List Resolved}, I d → Owned d →
    d.resolutions = r :: rest → I (resolve { d with resolutions := rest } w r)
  askTheSeat : ∀ {d : Impl} {w : World}, I d → Owned d → I (d.askTheSeat w)
  disconnect : ∀ {d : Impl} {w : World} {id connection : ℕ}, I d → Owned d → (d.find id).isSome →
    I (d.receiveDisconnect w id connection)
  stats : ∀ {d : Impl} {id : ℕ} {stats : Stats}, I d → Owned d → (d.find id).isSome →
    stats.connectionId < 2 ^ 64 → I (d.receiveStats id stats)
  opened : ∀ {d : Impl} {s : Live}, I d → Owned d → s.asking = none → s.serving = none →
    (∀ c, s.waiting = some c → d.Accepted c.id) → I { d with live := d.live ++ [s] }
  terminate : ∀ {d : Impl} {w : World} {id : ℕ}, I d → Owned d → (d.find id).isSome → I (d.terminate w id)

section Run

variable {I : Impl → Prop} (hI : Closed I)

include hI

variable {id : ℕ}

/-- A write to a record that is there. -/
theorem Closed.write (h : Holds I d) (hf : (d.find id).isSome) (he : ∀ s, (f s).essence = s.essence)
    (hw : ∀ s c, (f s).waiting = some c → s.waiting = some c ∨ d.Accepted c.id) :
    Holds I (d.modify id f) ∧ ((d.modify id f).find id).isSome := by
  have hq := quiet_modify hf he hw
  exact ⟨hI.quiet' h hq, by rw [hq.find_isSome]; exact hf⟩

variable (w : World)

theorem Closed.deliver' (atTheMachine : Bool) (h : Holds I d) (hf : (d.find id).isSome) (hc : d.Accepted client.id) :
    Holds I (d.deliver w id client atTheMachine) := by
  have h1 := hI.quiet' h (quiet_use hf)
  have hc1 : (d.use id).Accepted client.id := (carries_use d id).mem_log hc
  obtain ⟨s, hs⟩ := Option.isSome_iff_exists.mp hf
  unfold Impl.deliver
  dsimp only
  rw [find_use, hs]
  dsimp only
  split_ifs with hlink
  · refine hI.quiet' h1 (quiet_modify hf (fun _ => rfl) fun s c hw => .inr ?_)
    cases hw
    exact hc1
  · generalize hstate : (d.use id).registry.find id = state
    generalize hentry : Entry.delivered id client.id s.serving (state.map (·.connection)) (state.any (·.attached)) = e
    have hq : Quiet (d.use id) ((d.use id).note e) := quiet_note (by rw [← hentry]; trivial)
    have h2 := hI.quiet' h1 hq
    have hc2 : ((d.use id).note e).Accepted client.id := hq.carries.mem_log hc1
    split
    · exact hI.quiet' h2 (quiet_refuse _ _ _ _)
    · exact ⟨hI.askConsent h2.1 h2.2 hf hc2, (carries_askConsent w id hc2).owned h2.2⟩
    · next htake =>
      refine ⟨hI.handOver h2.1 h2.2 hs hc2 (.inl ⟨state.map (·.connection), state.any (·.attached), ?_,
        fun hask => ?_⟩),
        (carries_handOver _ _ _ _).owned h2.2⟩
      · rw [hentry]
        exact mem_append_right _ (mem_singleton_self e)
      · unfold ConsentBroker.takeoverOf at htake
        split_ifs at htake with hheld
        · cases state with
          | none => exact ⟨rfl, fun c hc => by cases hc⟩
          | some st =>
            simp only [Option.any_some, decide_eq_false_iff_not, not_or, Bool.not_eq_true] at hheld
            refine ⟨hheld.2.1, fun c hc => ?_⟩
            cases hc
            simpa using hheld.1
        · rw [hask] at htake
          cases htake

theorem Closed.refused {errorInfo : ℕ} {reason : Text} (h : Holds I d) :
    Holds I (d.refuse client errorInfo reason) := hI.quiet' h (quiet_refuse _ _ _ _)

theorem Closed.opened' (h : Holds I d) (ha : s.asking = none) (hs : s.serving = none)
    (hw : ∀ c, s.waiting = some c → d.Accepted c.id) : Holds I { d with live := d.live ++ [s] } := by
  refine ⟨hI.opened h.1 h.2 ha hs hw, h.2.authenticating, fun c hc => ?_, h.2.numbers, h.2.questions⟩
  obtain ⟨s', hs', hc⟩ := mem_clients.mp hc
  rcases mem_append.mp hs' with hs' | hs'
  · exact h.2.clients c (mem_clients.mpr ⟨s', hs', hc⟩)
  · cases mem_singleton.mp hs'
    rw [ha] at hc
    exact hw c (hc.resolve_right (by simp))

theorem Closed.startSession (account : Text) (user : Option Account) (attach ownShell : Bool) (h : Holds I d)
    (hc : d.Accepted client.id) : Holds I (d.startSession w client account user attach ownShell) := by
  have h1 := hI.quiet' h (quiet_registry d (d.registry.create account attach w.now).1)
  have hwait : ∀ c, some client = some c → d.Accepted c.id := by
    rintro c ⟨⟩
    exact hc
  unfold Impl.startSession
  dsimp only
  split
  · exact hI.refused (hI.quiet' h1 (quiet_registry _ _))
  · split_ifs
    · exact hI.opened' h1 rfl rfl hwait
    · split
      · refine hI.ends' (hI.opened' h1 rfl rfl hwait) ?_
        rw [find_isSome_iff]
        exact ⟨_, mem_append_right _ (mem_singleton_self _), rfl⟩
      · exact hI.opened' h1 rfl rfl hwait

theorem Closed.place (user : Option Account) (decision : Decision) (h : Holds I d) (hc : d.Accepted client.id) :
    Holds I (d.place w client user decision) := by
  unfold Impl.place
  cases decision.admission with
  | existing =>
    dsimp only
    split
    · exact h
    · next s hs =>
      have hid : (d.find s.id).isSome := find_isSome_iff.mpr ⟨s, (mem_of_find hs).1, rfl⟩
      split_ifs
      · exact hI.startSession w _ _ _ _ (hI.ends' h hid) ((carries_endSession d s.id none).mem_log hc)
      · exact hI.deliver' w _ h hid hc
  | create | attachLocal | replaceLocal | separateLocal => exact hI.startSession w _ _ _ _ h hc
  | refuseLocalSession | refuseLimit => exact hI.refused h

theorem Closed.handleAuthenticated (h : Holds I d) (hc : d.Accepted client.id) :
    Holds I (d.handleAuthenticated w client) := by
  unfold Impl.handleAuthenticated
  dsimp only
  split_ifs
  · exact hI.refused h
  · exact hI.refused h
  · exact hI.refused h
  · exact hI.place w _ _ h hc

theorem Closed.handleLaunched (launched : Launched) (h : Holds I d) :
    Holds I (d.handleLaunched launched) := by
  unfold Impl.handleLaunched
  split
  · exact h
  · next s hs =>
    have hf : (d.find launched.session).isSome := by rw [hs]; rfl
    obtain ⟨h1, hf1⟩ := hI.write (f := fun s => { s with loginSession := launched.loginSession }) h hf
      (fun _ => rfl) fun _ _ hw => .inl hw
    split_ifs
    · exact hI.ends' h1 hf1
    · exact h1

theorem Closed.bringWaiting (h : Holds I d) (hf : (d.find id).isSome) : Holds I (d.bringWaiting w id) := by
  obtain ⟨s, hs⟩ := Option.isSome_iff_exists.mp hf
  unfold Impl.bringWaiting
  rw [hs, Option.bind_some]
  cases hw : s.waiting with
  | none => exact hI.quiet' h (quiet_use hf)
  | some client =>
    dsimp only
    have hc : d.Accepted client.id := h.2.clients client (mem_clients.mpr ⟨s, (mem_of_find hs).1, .inl hw⟩)
    generalize hd1 : (d.modify id fun s => { s with waiting := none }) = d1
    have hq : Quiet d d1 := by
      rw [← hd1]
      exact quiet_modify hf (fun _ => rfl) fun _ _ hw => by cases hw
    have h1 := hI.quiet' h hq
    have hf1 : (d1.find id).isSome := by rw [hq.find_isSome]; exact hf
    have hc1 : d1.Accepted client.id := hq.carries.mem_log hc
    split_ifs
    · exact hI.deliver' w _ h1 hf1 hc1
    · obtain ⟨s1, hs1⟩ := Option.isSome_iff_exists.mp hf1
      rw [hs1]
      have hn : Quiet d1 (d1.note (.brought id client.id s1.serving)) := quiet_note trivial
      have h2 := hI.quiet' h1 hn
      refine ⟨hI.handOver h2.1 h2.2 hs1 (hn.carries.mem_log hc1) (.inr ?_), (carries_handOver _ _ _ _).owned h2.2⟩
      exact mem_append_right _ (mem_singleton_self _)

theorem Closed.greeted (link : AgentLink) (inbox : List Frame) (h : Holds I d) (hf : (d.find id).isSome) :
    Holds I (d.greeted w id link inbox) := by
  unfold Impl.greeted
  dsimp only
  generalize hd1 : rememberSessions _ = d1
  have hq : Quiet d d1 := by
    rw [← hd1]
    refine Quiet.trans (Quiet.trans ?_ (quiet_registry _ _)) (quiet_rememberSessions _)
    exact quiet_modify hf (fun _ => rfl) fun _ _ hw => .inl hw
  have h1 := hI.quiet' h hq
  have hf1 : (d1.find id).isSome := by rw [hq.find_isSome]; exact hf
  have hsend := hI.send w h1 hf1 (m := .settings) (fun c hc => by cases hc) fun q hm => by cases hm
  rcases sendTo_cases d1 w id .settings with ⟨-, hs⟩ | hs
  · rw [hs] at hsend ⊢
    exact hI.bringWaiting w hsend hf1
  · rw [hs] at hsend ⊢
    exact hsend

theorem Closed.readUnclaimed (peer : AgentPeer) (h : Holds I d) : Holds I (d.readUnclaimed w peer).1 := by
  unfold Impl.readUnclaimed
  split
  · exact h
  · exact h
  · split
    · split
      · exact h
      · next s hs =>
        have hid : (d.find s.id).isSome := find_isSome_iff.mpr ⟨s, mem_of_find?_eq_some hs, rfl⟩
        split
        · exact hI.quiet' h (quiet_modify hid (fun _ => rfl) fun _ _ hw => .inl hw)
        · exact hI.greeted w _ _ h hid
    · exact h

theorem Closed.receive {m : Message} (h : Holds I d) (hf : (d.find id).isSome)
    (hm : ∀ s, m = .stats s → s.connectionId < 2 ^ 64) : Holds I (d.receive w id m) := by
  have huse := hI.quiet' h (quiet_use hf)
  cases m with
  | disconnect connection errorInfo =>
    exact ⟨hI.disconnect h.1 h.2 hf, (carries_receiveDisconnect d w id connection).owned h.2⟩
  | consentReply connection a => exact ⟨hI.answer huse.1 huse.2, (carries_answer _ _ _ _).owned huse.2⟩
  | sessionEnded reason detail =>
    refine hI.quiet' h ((quiet_registry d _).trans (quiet_use ?_))
    exact hf
  | stats s => exact ⟨hI.stats h.1 h.2 hf (hm s rfl), (carries_receiveStats d id s).owned h.2⟩
  | _ => exact huse

omit hI in
/-- Nothing that an agent says ends its session at once. -/
theorem isSome_find_receive (d : Impl) (w : World) (id : ℕ) (m : Message) :
    ((d.receive w id m).find id).isSome = (d.find id).isSome := by
  have hdis : ∀ c, ((d.disconnected w id c).find id).isSome = (d.find id).isSome := fun c =>
    isSome_find_modify (f := fun s => { s with serving := s.serving.filter fun h => h.connection != c })
      (fun _ => rfl) id
  cases m with
  | disconnect c e =>
    unfold Impl.receive receiveDisconnect
    dsimp only
    split
    · exact hdis c
    · split_ifs
      · exact (isSome_find_modify (f := fun s => { s with peer := [] }) (fun _ => rfl) id).trans (hdis c)
      · exact (isSome_find_modify (f := fun s => { s with peer := [] }) (fun _ => rfl) id).trans (hdis c)
      · exact hdis c
  | stats s =>
    unfold Impl.receive receiveStats
    refine (isSome_find_modify (f := fun r => { r with stats := s }) (fun _ => rfl) id).trans ?_
    split_ifs <;> rfl
  | _ => rfl

omit hI in
/-- What a link lets through has been decoded. -/
theorem receive_stats {link link' : AgentLink} {frame : Frame} {m : Message}
    (h : link.receive frame = (link', some m)) :
    ∀ s, m = .stats s → s.connectionId < 2 ^ 64 := by
  rintro s rfl
  have hdec : decodeFromAgent frame = some (.stats s) := by
    unfold AgentLink.receive at h
    by_cases he : link.ended = true
    · rw [if_pos he] at h
      cases h
    rw [if_neg he] at h
    split at h
    · cases h
    · split_ifs at h <;> cases h
    · next m' hd hne =>
      split_ifs at h <;> cases h
      exact hne
  unfold decodeFromAgent at hdec
  split at hdec
  · split_ifs at hdec with hd
    cases hdec
    simpa [Message.decodable] using hd.1
  · cases hdec
  · cases hdec

theorem Closed.readFrame (frame : Frame) (rest : List Frame) (h : Holds I d) (hf : (d.find id).isSome) :
    Holds I (readFrame w id frame rest d).1 ∧
      ((readFrame w id frame rest d).2 = true → ((readFrame w id frame rest d).1.find id).isSome) := by
  obtain ⟨h1, hf1⟩ := hI.write (f := fun s => { s with inbox := rest }) h hf (fun _ => rfl) fun _ _ hw => .inl hw
  unfold Impl.readFrame
  split
  · exact ⟨hI.ends' h hf, fun hr => (by cases hr)⟩
  · dsimp only
    split
    · exact ⟨h1, fun _ => hf1⟩
    · split
      · exact ⟨hI.ends' h1 hf1, fun hr => (by cases hr)⟩
      · next link _ link' m hm =>
        obtain ⟨h2, hf2⟩ := hI.write (f := fun s => { s with link := some link' }) h1 hf1 (fun _ => rfl)
          fun _ _ hw => .inl hw
        refine ⟨hI.receive w h2 hf2 (receive_stats hm), fun _ => ?_⟩
        rw [isSome_find_receive]
        exact hf2

theorem Closed.readFrames (w : World) (id : ℕ) : ∀ (frames : List Frame) (d : Impl), Holds I d → (d.find id).isSome →
    Holds I (readFrames w id frames d).1 ∧
      ((readFrames w id frames d).2 = true → ((readFrames w id frames d).1.find id).isSome)
  | [], d, h, hf => ⟨h, fun _ => hf⟩
  | frame :: rest, d, h, hf => by
    obtain ⟨h1, hf1⟩ := hI.readFrame w frame rest h hf
    unfold Impl.readFrames
    dsimp only
    split_ifs with hr
    · exact Closed.readFrames w id rest _ h1 (hf1 hr)
    · exact ⟨h1, hf1⟩

theorem Closed.readAgent (id : ℕ) (frames : List Frame) (isOpen : Bool) (h : Holds I d) :
    Holds I (d.readAgent w id frames isOpen) := by
  unfold Impl.readAgent
  split
  · exact h
  · next s hs =>
    have hf : (d.find id).isSome := by rw [hs]; rfl
    split_ifs
    · exact h
    · obtain ⟨h1, hf1⟩ := hI.write (f := fun s => { s with inbox := s.inbox ++ frames, lastHeard := w.now }) h hf
        (fun _ => rfl) fun _ _ hw => .inl hw
      obtain ⟨h2, hf2⟩ := hI.readFrames w id (s.inbox ++ frames) _ h1 hf1
      dsimp only
      split_ifs with hr
      · exact hI.ends' h2 (hf2 hr.1)
      · exact h2

/-! ### Ticks -/

omit hI in
/-- A loop over a list. -/
theorem holds_foldl {α : Type} {f : Impl → α → Impl} (hstep : ∀ d a, Holds I d → Holds I (f d a)) :
    ∀ (l : List α) (d : Impl), Holds I d → Holds I (l.foldl f d)
  | [], _, h => h
  | a :: l, d, h => holds_foldl hstep l (f d a) (hstep d a h)

theorem Closed.settleLoop (w : World) : ∀ (n : ℕ) (d : Impl), Holds I d → Holds I (settleLoop w n d)
  | 0, _, h => h
  | n + 1, d, h => by
    unfold Impl.settleLoop
    cases hr : d.resolutions with
    | nil => exact h
    | cons r rest =>
      exact Closed.settleLoop w n _ ⟨hI.resolve h.1 h.2 hr, (carries_resolve w hr).owned h.2⟩

theorem Closed.terminate' (id : ℕ) (h : Holds I d) : Holds I (d.terminate w id) := by
  cases hf : d.find id with
  | none =>
    unfold Impl.terminate
    rw [hf]
    exact h
  | some s => exact ⟨hI.terminate h.1 h.2 (by rw [hf]; rfl), (carries_terminate d w id).owned h.2⟩

theorem Closed.act {a : Action} (h : Holds I d) (ha : a.kind = .disconnectIdle → a.connection ≠ 0) :
    Holds I (d.act w a) := by
  unfold Impl.act
  split
  · exact h
  · next s hs =>
    have hf : (d.find a.session).isSome := by rw [hs]; rfl
    cases hk : a.kind with
    | disconnectIdle =>
      refine hI.send w h hf (fun c hc => .inl ?_) fun q hm => by cases hm
      cases hc
      exact ha hk
    | terminateDisconnected =>
      obtain ⟨h1, hf1⟩ := hI.write (f := fun s =>
        { s with terminateSent := some w.now, endTag := text "disconnected_timeout" }) h hf (fun _ => rfl)
        fun _ _ hw => .inl hw
      exact hI.send w h1 hf1 (fun c hc => by cases hc) fun q hm => by cases hm

/-- What the policies call for, one after the other. -/
theorem Closed.acts (w : World) : ∀ (l : List Action) (d : Impl),
    (∀ a ∈ l, a.kind = .disconnectIdle → a.connection ≠ 0) → Holds I d → Holds I (l.foldl (fun d a => d.act w a) d)
  | [], _, _, h => h
  | a :: l, d, ha, h =>
    Closed.acts w l (d.act w a) (fun b hb => ha b (mem_cons_of_mem _ hb)) (hI.act w h (ha a mem_cons_self))

theorem Closed.giveUp (id : ℕ) (h : Holds I d) : Holds I (d.giveUp w id) := by
  unfold Impl.giveUp
  split
  · exact h
  · next s hs =>
    have hf : (d.find id).isSome := by rw [hs]; rfl
    obtain ⟨h1, hf1⟩ := hI.write (f := fun s => { s with reattachDeadline := none, waiting := none }) h hf
      (fun _ => rfl) fun _ _ hw => by cases hw
    have h2 := hI.ends' h1 hf1
    split
    · exact h2
    · next client hw =>
      have hc : d.Accepted client.id := h.2.clients client (mem_clients.mpr ⟨s, (mem_of_find hs).1, .inl hw⟩)
      refine hI.startSession w _ _ _ _ h2 ((carries_endSession _ _ _).mem_log ?_)
      exact mem_append_left _ hc

theorem Closed.endFound (id : ℕ) (h : Holds I d) : Holds I (d.endFound id) := by
  unfold Impl.endFound
  split_ifs with hf
  · exact hI.ends' h hf
  · exact h

omit hI in
theorem quiet_reap (d : Impl) (w : World) : Quiet d (d.reap w) := by
  have hsame : ∀ s : Live, (if s.process.any w.exited then { s with process := none } else s).essence = s.essence ∧
      (if s.process.any w.exited then { s with process := none } else s).waiting = s.waiting ∧
      (if s.process.any w.exited then { s with process := none } else s).asking = s.asking := by
    intro s
    split_ifs <;> exact ⟨rfl, rfl, rfl⟩
  refine ⟨rfl, rfl, rfl, rfl, rfl, rfl, ?_, fun c hc => .inr ?_, fun _ h => h, [], by simp [reap], by simp⟩
  · rw [reap, map_map]
    exact map_congr_left fun s _ => (hsame s).1
  · obtain ⟨s', hs', hc⟩ := mem_clients.mp hc
    obtain ⟨s, hs, rfl⟩ := mem_map.mp hs'
    rw [(hsame s).2.1, (hsame s).2.2] at hc
    exact mem_clients.mpr ⟨s, hs, hc⟩

theorem Closed.terminateRequested (h : Holds I d) : Holds I (d.terminateRequested w) :=
  holds_foldl (fun _ id h => hI.terminate' w id h) _ _
    (hI.quiet' h (.of_eq rfl rfl rfl rfl rfl rfl rfl (fun _ h => h) rfl))

theorem Closed.applyPolicies (h : Holds I d) : Holds I (d.applyPolicies w) :=
  hI.acts w _ _ (fun _ ha => SessionRegistry.due_disconnectIdle ha) (hI.quiet' h (quiet_registry _ _))

theorem Closed.giveUpLost (h : Holds I d) : Holds I (d.giveUpLost w) :=
  holds_foldl (fun _ id h => hI.giveUp w id h) _ _ h

theorem Closed.endSilent (h : Holds I d) : Holds I (d.endSilent w) := holds_foldl (fun _ id h => hI.endFound id h) _ _ h

theorem Closed.tick (h : Holds I d) : Holds I (d.tick w) := by
  have hseat : Holds I (d.askTheSeat w) := ⟨hI.askTheSeat h.1 h.2, (carries_askTheSeat d w).owned h.2⟩
  have hasked := hI.terminateRequested w hseat
  have hexpired : Holds I (((d.askTheSeat w).terminateRequested w).expire w.now) :=
    ⟨hI.expire hasked.1 hasked.2, (carries_expire _ w.now).owned hasked.2⟩
  have hsettled : Holds I ((((d.askTheSeat w).terminateRequested w).expire w.now).settle w) :=
    hI.settleLoop w _ _ hexpired
  have hpolicies := hI.applyPolicies w hsettled
  have hlost := hI.giveUpLost w hpolicies
  have hsilent := hI.endSilent w hlost
  exact holds_foldl (fun _ id h => hI.endFound id h) _ _ (hI.quiet' hsilent (quiet_reap _ w))

theorem Closed.shutdown (h : Holds I d) : Holds I (d.shutdown w) := by
  unfold Impl.shutdown
  refine holds_foldl (fun d id h => ?_) _ _ ?_
  · split_ifs with hf
    · obtain ⟨h1, hf1⟩ := hI.write (f := fun s => { s with terminateSent := some w.now, endTag := text "shutdown" }) h hf
        (fun _ => rfl) fun _ _ hw => .inl hw
      exact hI.ends' h1 hf1
    · exact h
  · have h1 : Holds I { d with seatGate := d.seatGate.releaseAll } :=
      ⟨hI.releaseAll h.1 h.2, h.2.authenticating, h.2.clients, h.2.numbers, h.2.questions⟩
    exact hI.quiet' h1 (.of_eq rfl rfl rfl rfl rfl rfl rfl (fun _ h => h) rfl)

theorem Closed.close (h : Holds I d) : Holds I d.close := holds_foldl (fun _ id h => hI.endFound id h) _ _ h

theorem Closed.step (e : Event) (h : Holds I d) : Holds I (d.step w e) := by
  cases e with
  | acceptClient =>
    refine ⟨hI.accept h.1 h.2, ?_⟩
    unfold Impl.step Impl.acceptClient
    split_ifs
    · exact h.2
    · have hlog : ∀ {e}, e ∈ d.log → e ∈ d.log ++ [Entry.accepted d.nextConnection] := mem_append_left _
      refine ⟨fun n hn => ?_, fun c hc => hlog (h.2.clients c hc), fun c hc => (h.2.numbers c hc).mono _,
        fun q hq => (h.2.questions q hq).imp fun _ hk => hlog hk⟩
      rcases mem_append.mp hn with hn | hn
      · exact hlog (h.2.authenticating n hn)
      · cases mem_singleton.mp hn
        exact mem_append_right _ (mem_singleton_self _)
  | acceptAgent uid | threadEnded | requestTerminate session =>
    exact hI.quiet' h (.of_eq rfl rfl rfl rfl rfl rfl rfl (fun _ h => h) rfl)
  | authenticated client =>
    unfold Impl.step
    dsimp only
    split_ifs with hmem
    · refine hI.handleAuthenticated w (hI.quiet' h ?_) (h.2.authenticating _ hmem)
      exact .of_eq rfl rfl rfl rfl rfl rfl rfl (fun _ h => mem_of_mem_erase h) rfl
    · exact h
  | dropped connection =>
    exact hI.quiet' h (.of_eq rfl rfl rfl rfl rfl rfl rfl (fun _ h => mem_of_mem_erase h) rfl)
  | launched l => exact hI.handleLaunched l h
  | readUnclaimed index frames isOpen =>
    unfold Impl.step
    dsimp only
    split
    · exact h
    · next peer hp =>
      have hread := hI.readUnclaimed w { peer with inbox := peer.inbox ++ frames } h
      split_ifs
      · exact hI.quiet' h (.of_eq rfl rfl rfl rfl rfl rfl rfl (fun _ h => h) rfl)
      · exact hI.quiet' hread (.of_eq rfl rfl rfl rfl rfl rfl rfl (fun _ h => h) rfl)
      · exact hI.quiet' hread (.of_eq rfl rfl rfl rfl rfl rfl rfl (fun _ h => h) rfl)
  | readAgent session frames isOpen => exact hI.readAgent w session frames isOpen h
  | tick => exact hI.tick w h
  | login account =>
    refine ⟨hI.login h.1 h.2, Carries.owned ?_ h.2⟩
    exact .of_log _ rfl rfl rfl (fun _ => .inr) rfl
  | awaited cookie => exact ⟨hI.awaited h.1 h.2, h.2.authenticating, h.2.clients, h.2.numbers, h.2.questions⟩
  | shutdown => exact hI.shutdown w h
  | close => exact hI.close h

/-- **The invariant along a run.** -/
theorem Closed.run : ∀ (es : List (World × Event)) {d : Impl}, Holds I d → Holds I (d.run es)
  | [], _, h => h
  | e :: es, _, h => Closed.run es (hI.step e.1 e.2 h)

end Run

/-! ### The first state -/

/-- Nothing has been asked and nobody has come. -/
structure Fresh (options : Options) (d : Impl) : Prop where
  consent : d.consent = { policy := options.policy }
  resolutions : d.resolutions = []
  seatGate : d.seatGate = {}
  seatQuestions : d.seatQuestions = []
  nextSeatConnection : d.nextSeatConnection = seatConnectionBit
  nextConnection : d.nextConnection = 1
  authenticating : d.authenticating = []
  live : ∀ s ∈ d.live, s.waiting = none ∧ s.asking = none
  log : d.log = []

theorem recoverSessions_fresh {options : Options} (w : World) : ∀ (table : List (StoredSession × Option ℕ)) {d : Impl},
    Fresh options d → Fresh options (d.recoverSessions w table)
  | [], _, h => h
  | e :: table, d, h => by
    rw [recoverSessions, foldl_cons]
    refine recoverSessions_fresh w table ?_
    split_ifs
    · exact h
    · refine ⟨h.consent, h.resolutions, h.seatGate, h.seatQuestions, h.nextSeatConnection, h.nextConnection,
        h.authenticating, fun s hs => ?_, h.log⟩
      rcases mem_append.mp hs with hs | hs
      · exact h.live s hs
      · cases mem_singleton.mp hs
        exact ⟨rfl, rfl⟩

theorem start_fresh (options : Options) (w : World) (table : List (StoredSession × Option ℕ)) :
    Fresh options (start options w table) :=
  recoverSessions_fresh w table ⟨rfl, rfl, rfl, rfl, rfl, rfl, rfl, fun _ hs => (by cases hs), rfl⟩

theorem Fresh.owned {options : Options} (h : Fresh options d) : Owned d := by
  refine ⟨fun n hn => ?_, fun c hc => ?_, fun c hc => ?_, fun q hq => ?_⟩
  · rw [h.authenticating] at hn
    cases hn
  · obtain ⟨s, hs, hc⟩ := mem_clients.mp hc
    rw [(h.live s hs).1, (h.live s hs).2] at hc
    rcases hc with hc | hc <;> cases hc
  · rw [numbers, h.consent, h.resolutions] at hc
    cases hc
  · rw [h.seatQuestions] at hq
    cases hq

/-! ### A session with its client -/

/-- Events in a world where every send arrives and no time passes. -/
def calmly (es : List Event) : List (World × Event) := es.map fun e => ({}, e)

def clientOf (id : ℕ) (account : Text) : Authenticated where
  id := id
  account := account
  negotiation := ⟨[], protocolHybrid, protocolHybrid, some ⟨account, []⟩⟩

/-- A session of `account` starts for the client `id`, and its agent greets. -/
def arriving (id : ℕ) (account : Text) : List Event :=
  [.acceptClient, .authenticated (clientOf id account), .acceptAgent 0,
    .readUnclaimed 0 [.message (.hello protocolVersion Token.zero)] true]

end Impl
end Daemon
end Farland
