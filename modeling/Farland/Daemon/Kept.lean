/-
# What the handlers leave alone

Two things about a state of the daemon that every handler keeps, as long as
it is given what it needs. All clients of the daemon, and all clients that
were ever brought to an agent, have a property `P` that each client has when
it arrives. And the records of the sessions outside a set `T` stay as they
are, together with what the registry knows of them: a handler reaches a
session through a client, a message, a prompt or a timer, and each of these
names a session of `T`.

`Keeps` has one lemma for each handler, in the order of `Impl`.
-/
import Farland.Daemon.Runs

namespace Farland
namespace Daemon

open Server Server.Broker List SessionRegistry

/-- The session is from before the restart and waits for its agent. -/
def Live.pending (s : Live) : Bool := s.reattachDeadline.isSome

variable {client : Authenticated} {α : Type} {s : Live} {f : Live → Live} {r : Resolved}

/-- A NewConnection is one of a client with `P`. -/
def Entry.Hands (P : Authenticated → Prop) : Entry → Prop
  | .sent _ (.newConnection id negotiation password peer elapsed) _ =>
    ∃ w client, P client ∧ Impl.newConnectionOf w client = .newConnection id negotiation password peer elapsed
  | _ => True

namespace Impl

/-- The sessions that wait for their agent. -/
def pendingIds (d : Impl) : List ℕ := (d.live.filter Live.pending).map (·.id)

/-- The next session id, once these have been given out, the last one first. -/
def nextAfter (d : Impl) : List ℕ → ℕ
  | [] => d.registry.nextId
  | id :: _ => (id + 1) % 2 ^ 32

/-- Sessions outside `T` have no agent yet. -/
structure Bystanders (T : ℕ → Bool) (d : Impl) : Prop where
  link : ∀ s ∈ d.live, T s.id = false → s.link = none
  agent : ∀ s ∈ d.live, T s.id = false → s.agent = false

/-- Sessions outside `T` are not overdue. -/
structure Spared (T : ℕ → Bool) (w : World) (d : Impl) : Prop where
  process : ∀ s ∈ d.live, T s.id = false → s.process.any w.exited = false
  terminateSent : ∀ s ∈ d.live, T s.id = false → s.terminateSent = none
  young : ∀ s ∈ d.live, T s.id = false → w.now ≤ s.created + startTimeout

/-- What is kept since the state `d₀`, with the sessions `given` created since. -/
structure Keeps (P : Authenticated → Prop) (T : ℕ → Bool) (d₀ : Impl) (given : List ℕ) (d : Impl) : Prop where
  clients : ∀ c ∈ d.clients, P c
  handed : ∀ e ∈ d.log, e.Hands P
  prompts : ∀ p ∈ d.consent.prompts, T p.session = true
  resolutions : ∀ r ∈ d.resolutions, T r.session = true
  terminations : ∀ id ∈ d.terminations, T id = true
  records : d.live.filter (fun s => ! T s.id) = d₀.live.filter fun s => ! T s.id
  sessions : d.registry.sessions.filter (fun s => ! T s.id) = d₀.registry.sessions.filter fun s => ! T s.id
  running : ∀ s ∈ d.registry.sessions, s.state = .running → T s.id = true
  pending : d.pendingIds.Sublist d₀.pendingIds
  ids : ∀ s ∈ d.live, (∃ s₀ ∈ d₀.live, s₀.id = s.id) ∨ s.id ∈ given
  next : d.registry.nextId = d₀.nextAfter given
  log : d₀.log <+: d.log

section

variable {P : Authenticated → Prop} {T : ℕ → Bool} {d₀ d : Impl} {given : List ℕ} {w : World} {id : ℕ}

section

variable (h : Keeps P T d₀ given d)
include h

/-- The records outside `T` are those there were. -/
theorem Keeps.mem_initial (hs : s ∈ d.live) (hT : T s.id = false) :
    s ∈ d₀.live := by
  have hmem : s ∈ d₀.live.filter fun s => ! T s.id := by
    rw [← h.records]
    exact mem_filter.mpr ⟨hs, by simp [hT]⟩
  exact mem_of_mem_filter hmem

/-- The records of an id outside `T`. -/
theorem Keeps.filter_id {n : ℕ} (hT : T n = false) :
    (d.live.filter fun s => s.id == n) = d₀.live.filter fun s => s.id == n := by
  have hfilter : ∀ l : List Live, (l.filter fun s => s.id == n) =
      (l.filter fun s => ! T s.id).filter fun s => s.id == n := by
    intro l
    rw [filter_filter]
    refine filter_congr fun s _ => ?_
    by_cases hid : s.id = n
    · simp [hid, hT]
    · simp [hid]
  rw [hfilter, h.records, ← hfilter]

/-- A record with something that the sessions outside `T` do not have. -/
theorem Keeps.of_mem {g : Live → α} {a : α}
    (hb : ∀ s ∈ d₀.live, T s.id = false → g s = a) (hs : s ∈ d.live) (hg : ¬ g s = a) : T s.id = true := by
  by_contra hT
  rw [Bool.not_eq_true] at hT
  exact hg (hb s (h.mem_initial hs hT) hT)

theorem Keeps.of_bystander {g : Live → α} {a : α}
    (hb : ∀ s ∈ d₀.live, T s.id = false → g s = a) (hs : d.find id = some s) (hg : ¬ g s = a) :
    T id = true := by
  obtain ⟨hm, rfl⟩ := mem_of_find hs
  exact h.of_mem hb hm hg

/-! ### Single writes -/

/-- A step that writes to no record and to no session. -/
theorem Keeps.step {d' : Impl} (hlive : d'.live = d.live) (hreg : d'.registry = d.registry)
    (hp : ∀ p ∈ d'.consent.prompts, p ∈ d.consent.prompts ∨ T p.session = true)
    (hr : ∀ r ∈ d'.resolutions, r ∈ d.resolutions ∨ T r.session = true) (ht : d'.terminations = d.terminations)
    (es : List Entry) (hlog : d'.log = d.log ++ es) (hes : ∀ e ∈ es, e.Hands P) : Keeps P T d₀ given d' where
  clients := fun c hc => h.clients c (mem_clients_of_live hlive hc)
  handed := fun e he => by
    rw [hlog] at he
    exact (mem_append.mp he).elim (h.handed e) (hes e)
  prompts := fun p hm => (hp p hm).elim (h.prompts p) fun hT => hT
  resolutions := fun r hm => (hr r hm).elim (h.resolutions r) fun hT => hT
  terminations := fun i hi => h.terminations i (ht ▸ hi)
  records := by rw [hlive, h.records]
  sessions := by rw [hreg, h.sessions]
  running := by rw [hreg]; exact h.running
  pending := by rw [pendingIds, hlive]; exact h.pending
  ids := by rw [hlive]; exact h.ids
  next := by rw [hreg, h.next]
  log := by rw [hlog]; exact h.log.trans (prefix_append _ _)

/-- A step that writes to the history only. -/
theorem Keeps.note {e : Entry} (he : e.Hands P) : Keeps P T d₀ given (d.note e) :=
  h.step rfl rfl (fun _ => .inl) (fun _ => .inl) rfl [e] rfl (by simpa using he)

theorem Keeps.use (i : ℕ) : Keeps P T d₀ given (d.use i) := h.note trivial

theorem Keeps.refuse (client : Authenticated) (errorInfo : ℕ) (reason : Text) :
    Keeps P T d₀ given (d.refuse client errorInfo reason) := h.note trivial

end

theorem filter_updateFirst {id : ℕ} (hid : ∀ s, (f s).id = s.id) (hT : T id = true) :
    ∀ l : List Live, ((updateFirst id f l).filter fun s => ! T s.id) = l.filter fun s => ! T s.id
  | [] => rfl
  | s :: l => by
    unfold updateFirst
    by_cases hs : s.id = id
    · simp [hs, hid, hT]
    · rw [if_neg hs, filter_cons, filter_cons, filter_updateFirst hid hT l]

theorem pending_updateFirst {id : ℕ} (hid : ∀ s, (f s).id = s.id)
    (hp : ∀ s, (f s).pending = true → s.pending = true) : ∀ l : List Live,
    (((updateFirst id f l).filter Live.pending).map (·.id)).Sublist ((l.filter Live.pending).map (·.id))
  | [] => .refl _
  | s :: l => by
    unfold updateFirst
    split_ifs with hs
    · by_cases hfs : (f s).pending = true
      · simp [hfs, hp s hfs, hid]
      · by_cases hsp : s.pending = true
        · simp [hfs, hsp]
        · simp [hfs, hsp]
    · by_cases hsp : s.pending = true
      · simp only [filter_cons_of_pos hsp, map_cons]
        exact (pending_updateFirst hid hp l).cons_cons _
      · simp only [filter_cons_of_neg hsp]
        exact pending_updateFirst hid hp l

/-- A write to a record of `T`. -/
theorem Keeps.modify (h : Keeps P T d₀ given d) (hT : T id = true) (hid : ∀ s, (f s).id = s.id)
    (hc : ∀ s c, (f s).waiting = some c ∨ (f s).asking = some c → P c ∨ s.waiting = some c ∨ s.asking = some c)
    (hp : ∀ s, (f s).pending = true → s.pending = true) : Keeps P T d₀ given (d.modify id f) where
  clients := fun c hm => by
    obtain ⟨s, hs, hc'⟩ := mem_clients.mp hm
    rcases mem_updateFirst hs with hs | ⟨s₀, hs₀, -, rfl⟩
    · exact h.clients c (mem_clients.mpr ⟨s, hs, hc'⟩)
    · exact (hc s₀ c hc').elim (fun hP => hP) fun hc' => h.clients c (mem_clients.mpr ⟨s₀, hs₀, hc'⟩)
  handed := (h.use id).handed
  prompts := h.prompts
  resolutions := h.resolutions
  terminations := h.terminations
  records := by
    rw [← h.records]
    exact filter_updateFirst hid hT d.live
  sessions := h.sessions
  running := h.running
  pending := (pending_updateFirst hid hp d.live).trans h.pending
  ids := fun s hs => by
    rcases mem_updateFirst hs with hs | ⟨s₀, hs₀, -, rfl⟩
    · exact h.ids s hs
    · rw [hid]
      exact h.ids s₀ hs₀
  next := h.next
  log := (h.use id).log

/-- A write that has nothing to do with clients and deadlines. -/
theorem Keeps.write (h : Keeps P T d₀ given d) (hT : T id = true)
    (hf : ∀ s, (f s).id = s.id ∧ (f s).waiting = s.waiting ∧ (f s).asking = s.asking ∧
      (f s).reattachDeadline = s.reattachDeadline) : Keeps P T d₀ given (d.modify id f) :=
  h.modify hT (fun s => (hf s).1) (fun s c hc => .inr (by rwa [(hf s).2.1, (hf s).2.2.1] at hc))
    fun s hs => by rwa [Live.pending, (hf s).2.2.2] at hs

/-- A write to the registry. -/
theorem Keeps.registry (h : Keeps P T d₀ given d) {r : SessionRegistry} (hnext : r.nextId = d.registry.nextId)
    (hsessions : (r.sessions.filter fun s => ! T s.id) = d.registry.sessions.filter fun s => ! T s.id)
    (hrun : ∀ s ∈ r.sessions, s.state = .running → T s.id = true ∨ s ∈ d.registry.sessions) :
    Keeps P T d₀ given { d with registry := r } :=
  ⟨h.clients, h.handed, h.prompts, h.resolutions, h.terminations, h.records, hsessions.trans h.sessions,
    fun s hs hr => (hrun s hs hr).elim (fun hT => hT) fun hm => h.running s hm hr, h.pending, h.ids,
    hnext.trans h.next, h.log⟩

theorem filter_sessions_updateFirst {id : ℕ} {f : Session → Session} (hid : ∀ s, (f s).id = s.id) (hT : T id = true) :
    ∀ l : List Session, ((SessionRegistry.updateFirst id f l).filter fun s => ! T s.id) = l.filter fun s => ! T s.id
  | [] => rfl
  | s :: l => by
    unfold SessionRegistry.updateFirst
    by_cases hs : s.id = id
    · simp [hs, hid, hT]
    · rw [if_neg hs, filter_cons, filter_cons, filter_sessions_updateFirst hid hT l]

/-- A write to a session of `T`. -/
theorem Keeps.update (h : Keeps P T d₀ given d) (hT : T id = true) {f : Session → Session}
    (hid : ∀ s, (f s).id = s.id) :
    Keeps P T d₀ given { d with registry := d.registry.update id f } := by
  refine h.registry rfl (filter_sessions_updateFirst hid hT _) fun s hs _ => ?_
  rcases SessionRegistry.mem_updateFirst hs with hs | ⟨s₀, -, rfl, rfl⟩
  · exact .inr hs
  · exact .inl (by rw [hid]; exact hT)

theorem filter_ne {g : α → ℕ} (hT : T id = true) (l : List α) :
    ((l.filter fun s => g s != id).filter fun s => ! T (g s)) = l.filter fun s => ! T (g s) := by
  rw [filter_filter]
  refine filter_congr fun s _ => ?_
  by_cases hs : g s = id
  · simp [hs, hT]
  · simp [hs]

section

variable (h : Keeps P T d₀ given d)
include h

theorem Keeps.remove (hT : T id = true) :
    Keeps P T d₀ given { d with registry := d.registry.remove id } :=
  h.registry rfl (filter_ne hT _) fun _ hs _ => .inr (mem_of_mem_filter hs)

theorem Keeps.setEnding (hT : T id = true) :
    Keeps P T d₀ given { d with registry := d.registry.setEnding id } := h.update hT fun _ => rfl

theorem Keeps.rememberSessions : Keeps P T d₀ given d.rememberSessions :=
  h.step rfl rfl (fun _ => .inl) (fun _ => .inl) rfl [] (by simp [Impl.rememberSessions]) (by simp)

/-! ### Prompts -/

theorem Keeps.forget (connection : ℕ) : Keeps P T d₀ given (d.forget connection) :=
  h.step rfl rfl (fun _ hp => .inl (mem_of_mem_filter hp)) (fun _ => .inl) rfl _ rfl (by simp [Entry.Hands])

theorem Keeps.ask {session : ℕ} (hT : T session = true) (connection : ℕ) (who : Party)
    (now : Time) : Keeps P T d₀ given (d.ask session connection who now) := by
  refine h.step rfl rfl (fun p hp => ?_) (fun _ => .inl) rfl _ rfl (by simp [Entry.Hands])
  rcases mem_append.mp hp with hp | hp
  · exact .inl (mem_of_mem_filter hp)
  · rw [mem_singleton.mp hp]
    exact .inr hT

theorem Keeps.answer (session connection : ℕ) (a : ConsentAnswer) :
    Keeps P T d₀ given (d.answer session connection a) := by
  refine h.step rfl rfl (fun p hp => .inl ?_) (fun r hr => ?_) rfl _ rfl (by simp [Entry.Hands])
  · exact (d.consent.answered_prompts connection a).mem_iff.mp (mem_append_right _ hp)
  · refine (mem_append.mp hr).imp (fun hr => hr) fun hr => ?_
    rw [ConsentBroker.answered_resolved, Option.mem_toList, Option.map_eq_some_iff] at hr
    obtain ⟨p, hp, rfl⟩ := hr
    rw [ConsentBroker.answer_session]
    exact h.prompts p (ConsentBroker.mem_of_find hp).1

theorem Keeps.release (session : ℕ) : Keeps P T d₀ given (d.release session) := by
  refine h.step rfl rfl (fun p hp => .inl (mem_of_mem_filter hp)) (fun r hr => ?_) rfl _ rfl (by simp [Entry.Hands])
  refine (mem_append.mp hr).imp (fun hr => hr) fun hr => ?_
  obtain ⟨p, hp, rfl⟩ := mem_map.mp hr
  exact h.prompts p (mem_of_mem_filter hp)

theorem Keeps.abandon (session : ℕ) : Keeps P T d₀ given (d.abandon session) :=
  h.step rfl rfl (fun _ hp => .inl (mem_of_mem_filter hp)) (fun _ => .inl) rfl _ rfl (by simp [Entry.Hands])

theorem Keeps.expire (now : Time) : Keeps P T d₀ given (d.expire now) := by
  refine h.step rfl rfl (fun p hp => .inl (mem_of_mem_filter hp)) (fun r hr => ?_) rfl _ rfl (by simp [Entry.Hands])
  refine (mem_append.mp hr).imp (fun hr => hr) fun hr => ?_
  obtain ⟨p, hp, rfl⟩ := mem_map.mp hr
  exact h.prompts p (mem_of_mem_filter hp)

/-! ### Ending and sending -/

theorem Keeps.dropRecord (hT : T id = true) (cause : Option Message)
    (abandoned : List Prompt) : Keeps P T d₀ given (d.dropRecord id cause abandoned) := by
  have hdrop : Keeps P T d₀ given { d with
      registry := d.registry.remove id
      live := d.live.filter fun s => s.id != id
      log := d.log ++ [.ended id cause abandoned d.undecided] } := by
    refine ⟨fun c hc => ?_, (h.note (e := .ended _ _ _ _) trivial).handed, h.prompts, h.resolutions, h.terminations, ?_,
      (h.remove hT).sessions, (h.remove hT).running, ?_,
      fun s hs => h.ids s (mem_of_mem_filter hs), h.next, (h.note (e := .ended _ _ _ _) trivial).log⟩
    · obtain ⟨s, hs, hc⟩ := mem_clients.mp hc
      exact h.clients c (mem_clients.mpr ⟨s, mem_of_mem_filter hs, hc⟩)
    · rw [← h.records]
      exact filter_ne hT d.live
    · exact ((filter_sublist.filter _).map _).trans h.pending
  unfold Impl.dropRecord
  dsimp only
  split_ifs
  · exact hdrop
  · exact hdrop.rememberSessions

theorem Keeps.endSession (hT : T id = true) (cause : Option Message) :
    Keeps P T d₀ given (d.endSession id cause) := by
  have habandon := (h.use id).abandon id
  unfold Impl.endSession
  split
  · exact (habandon.refuse _ _ _).dropRecord hT _ _
  · exact habandon.dropRecord hT _ _

/-- A message that brings no client, or one with `P`. -/
theorem Keeps.sendTo (w : World) (hT : T id = true) {m : Message}
    (hm : ∀ holder, (Entry.sent id m holder).Hands P) : Keeps P T d₀ given (d.sendTo w id m).1 := by
  rcases sendTo_cases d w id m with ⟨-, hs⟩ | hs
  · rw [hs]
    exact (h.use id).note (hm _)
  · rw [hs]
    exact ((h.use id).note (e := .unreached _ _) trivial).endSession hT _

/-! ### Clients -/

theorem Keeps.noteUnlock (w : World) (id : ℕ) (client : Authenticated) :
    Keeps P T d₀ given (d.noteUnlock w id client) := by
  unfold Impl.noteUnlock
  split
  · split_ifs
    · exact h.step rfl rfl (fun _ => .inl) (fun _ => .inl) rfl [] (by simp) (by simp)
    · exact h
  · exact h

theorem Keeps.sendClient (w : World) (hT : T id = true)
    (hP : P client) : Keeps P T d₀ given (d.sendClient w id client) := by
  have hsent := ((h.use id).noteUnlock w id client).sendTo w hT (m := newConnectionOf w client)
    fun _ => ⟨w, client, hP, rfl⟩
  unfold Impl.sendClient
  dsimp only
  split_ifs
  · exact hsent.write hT fun _ => ⟨rfl, rfl, rfl, rfl⟩
  · exact hsent

theorem Keeps.connect (hT : T id = true) (client : Authenticated) :
    Keeps P T d₀ given (d.connect id client) :=
  ((h.use id).note (e := .handing _ _ _ _) trivial).update hT fun _ => rfl

theorem Keeps.handOver (w : World) (hT : T id = true)
    (hP : P client) : Keeps P T d₀ given (d.handOver w id client) := by
  have hc := h.connect hT client
  unfold Impl.handOver
  dsimp only
  split_ifs
  · exact (hc.sendTo w hT fun _ => (by trivial)).sendClient w hT hP
  · exact hc.sendTo w hT fun _ => (by trivial)
  · exact hc.sendClient w hT hP

theorem Keeps.unask (hT : T id = true) :
    Keeps P T d₀ given (d.modify id fun s => { s with asking := none }) :=
  h.modify hT (fun _ => rfl) (fun _ _ hc => .inr (.inl (hc.resolve_right (by simp)))) fun _ hs => hs

theorem Keeps.replaceAsking (hT : T id = true) :
    Keeps P T d₀ given (d.replaceAsking id) := by
  unfold Impl.replaceAsking
  split
  · exact ((h.unask hT).forget _).refuse _ _ _
  · exact h.use id

theorem Keeps.askConsent (w : World) (hT : T id = true)
    (hP : P client) : Keeps P T d₀ given (d.askConsent w id client) := by
  unfold Impl.askConsent
  refine Keeps.sendTo ?_ w hT fun _ => (by trivial)
  refine ((h.replaceAsking hT).ask hT _ _ _).modify hT (fun _ => rfl) (fun s c hc => ?_) fun _ hs => hs
  rcases hc with hc | hc
  · exact .inr (.inl hc)
  · cases hc
    exact .inl hP

theorem Keeps.deliver (w : World) (hT : T id = true)
    (hP : P client) (atTheMachine : Bool) : Keeps P T d₀ given (d.deliver w id client atTheMachine) := by
  have huse := h.use id
  unfold Impl.deliver
  dsimp only
  split
  · exact huse
  · split_ifs
    · refine huse.modify hT (fun _ => rfl) (fun s c hc => ?_) fun s hs => ?_
      · rcases hc with hc | hc
        · cases hc
          exact .inl hP
        · exact .inr (.inr hc)
      · simpa [Live.pending] using hs
    · split
      · exact (huse.note (e := .delivered _ _ _ _ _) trivial).refuse _ _ _
      · exact (huse.note (e := .delivered _ _ _ _ _) trivial).askConsent w hT hP
      · exact (huse.note (e := .delivered _ _ _ _ _) trivial).handOver w hT hP

/-- A new record of `T`. -/
theorem Keeps.opened (hT : T s.id = true) (hid : s.id ∈ given)
    (hc : ∀ c, s.waiting = some c ∨ s.asking = some c → P c) (hp : s.reattachDeadline = none) :
    Keeps P T d₀ given { d with live := d.live ++ [s] } where
  clients := fun c hm => by
    obtain ⟨s', hs', hc'⟩ := mem_clients.mp hm
    rcases mem_append.mp hs' with hs' | hs'
    · exact h.clients c (mem_clients.mpr ⟨s', hs', hc'⟩)
    · rw [mem_singleton.mp hs'] at hc'
      exact hc c hc'
  handed := h.handed
  prompts := h.prompts
  resolutions := h.resolutions
  terminations := h.terminations
  records := by simp [hT, h.records]
  sessions := h.sessions
  running := h.running
  pending := by
    have hpend := h.pending
    simpa [pendingIds, Live.pending, hp] using hpend
  ids := fun s' hs' => by
    rcases mem_append.mp hs' with hs' | hs'
    · exact h.ids s' hs'
    · rw [mem_singleton.mp hs']
      exact .inr hid
  next := h.next
  log := h.log

theorem Keeps.create (hT : T (d₀.nextAfter given) = true) (account : Text) (attach : Bool)
    (now : Time) : Keeps P T d₀ (d₀.nextAfter given :: given)
      { d with registry := (d.registry.create account attach now).1 } where
  clients := h.clients
  handed := h.handed
  prompts := h.prompts
  resolutions := h.resolutions
  terminations := h.terminations
  records := h.records
  sessions := by simpa [SessionRegistry.create, h.next, hT] using h.sessions
  running := fun s hs hr => by
    rcases mem_append.mp hs with hs | hs
    · exact h.running s hs hr
    · rw [mem_singleton.mp hs] at hr
      cases hr
  pending := h.pending
  ids := fun s hs => (h.ids s hs).imp (fun hs₀ => hs₀) (mem_cons_of_mem _)
  next := by simp [SessionRegistry.create, h.next, nextAfter]
  log := h.log

theorem Keeps.startSession (w : World) (hP : P client)
    (hT : T (d₀.nextAfter given) = true) (account : Text) (user : Option Account) (attach ownShell : Bool) :
    Keeps P T d₀ (d₀.nextAfter given :: given) (d.startSession w client account user attach ownShell) := by
  have hc := h.create hT account attach w.now
  have hid : (d.registry.create account attach w.now).2 = d₀.nextAfter given := h.next
  have hclient : ∀ c, some client = some c ∨ none = some c → P c := by
    rintro c (⟨⟨⟩⟩ | ⟨⟨⟩⟩)
    exact hP
  unfold Impl.startSession
  dsimp only
  rw [hid]
  split
  · exact (hc.remove hT).refuse _ _ _
  · split_ifs
    · exact hc.opened hT mem_cons_self hclient rfl
    · split
      · exact Keeps.endSession (hc.opened hT mem_cons_self hclient rfl) hT none
      · exact hc.opened hT mem_cons_self hclient rfl

/-- A client, for a session of `T` or a new one. -/
theorem Keeps.place (w : World) (hP : P client)
    (hnext : T (d₀.nextAfter given) = true) (user : Option Account) {decision : Decision}
    (hT : decision.admission = .existing → (d.find decision.session).isSome → T decision.session = true) :
    ∃ given', (given' = given ∨ given' = d₀.nextAfter given :: given) ∧
      Keeps P T d₀ given' (d.place w client user decision) := by
  unfold Impl.place
  have hstart := fun account user attach ownShell => h.startSession w hP hnext account user attach ownShell
  cases ha : decision.admission with
  | existing =>
    dsimp only
    split
    · exact ⟨given, .inl rfl, h⟩
    · next s hs =>
      have hid : T s.id = true := by
        rw [(mem_of_find hs).2]
        exact hT ha (by rw [hs]; rfl)
      split_ifs
      · exact ⟨_, .inr rfl, (h.endSession hid none).startSession w hP hnext _ _ _ _⟩
      · exact ⟨given, .inl rfl, h.deliver w hid hP _⟩
  | create | attachLocal | replaceLocal | separateLocal => exact ⟨_, .inr rfl, hstart _ _ _ _⟩
  | refuseLocalSession | refuseLimit => exact ⟨given, .inl rfl, h.refuse _ _ _⟩

theorem Keeps.handleAuthenticated (w : World) (hP : P client) (hnext : T (d₀.nextAfter given) = true)
    (hT : ∀ localSession, (d.registry.admitAccount client.account localSession).admission = .existing →
      (d.find (d.registry.admitAccount client.account localSession).session).isSome →
      T (d.registry.admitAccount client.account localSession).session = true) :
    ∃ given', (given' = given ∨ given' = d₀.nextAfter given :: given) ∧
      Keeps P T d₀ given' (d.handleAuthenticated w client) := by
  unfold Impl.handleAuthenticated
  dsimp only
  split_ifs
  · exact ⟨given, .inl rfl, h.refuse _ _ _⟩
  · exact ⟨given, .inl rfl, h.refuse _ _ _⟩
  · exact ⟨given, .inl rfl, h.refuse _ _ _⟩
  · exact h.place w hP hnext _ (hT _)

theorem Keeps.handleLaunched {launched : Launched} (hT : T launched.session = true) :
    Keeps P T d₀ given (d.handleLaunched launched) := by
  unfold Impl.handleLaunched
  split
  · exact h
  · have hw : Keeps P T d₀ given (d.modify launched.session fun s =>
    { s with loginSession := launched.loginSession }) := h.write hT fun _ => ⟨rfl, rfl, rfl, rfl⟩
    split_ifs
    · exact hw.endSession hT none
    · exact hw

/-! ### Agents -/

/-- The client of a record has `P`. -/
theorem Keeps.of_find (hs : d.find id = some s) {c : Authenticated}
    (hc : s.waiting = some c ∨ s.asking = some c) : P c :=
  h.clients c (mem_clients.mpr ⟨s, (mem_of_find hs).1, hc⟩)

theorem Keeps.bringWaiting (w : World) (hT : T id = true) :
    Keeps P T d₀ given (d.bringWaiting w id) := by
  unfold Impl.bringWaiting
  split
  · exact h.use id
  · next client hc =>
    obtain ⟨s, hs, hw⟩ := Option.bind_eq_some_iff.mp hc
    have hP := h.of_find hs (.inl hw)
    have hm : Keeps P T d₀ given (d.modify id fun s => { s with waiting := none }) :=
      h.modify hT (fun _ => rfl) (fun _ _ hc => .inr (.inr (hc.resolve_left (by simp)))) fun _ hs => hs
    dsimp only
    split_ifs
    · exact hm.deliver w hT hP false
    · exact (hm.note (e := .brought _ _ _) trivial).handOver w hT hP

end

/-- What is written to the record whose agent greets. -/
def greet (w : World) (link : AgentLink) (inbox : List Frame) (s : Live) : Live :=
  { s with
    reattachToken := s.token, link := some link, token := Token.zero, agent := true, inbox := inbox
    reattachDeadline := none, lastHeard := w.now }

/-- The rest of `greeted`, behind the write. -/
theorem Keeps.afterGreet {link : AgentLink} {inbox : List Frame}
    (h : Keeps P T d₀ given (d.modify id (greet w link inbox)))
    (hT : T id = true) : Keeps P T d₀ given (d.greeted w id link inbox) := by
  have hr := (h.update hT (f := fun s => if s.state = .starting then { s with state := .running } else s)
    fun s => by split_ifs <;> rfl).rememberSessions
  have hsent := hr.sendTo w hT (m := .settings) fun _ => trivial
  unfold Impl.greeted
  dsimp only
  split_ifs
  · exact hsent.bringWaiting w hT
  · exact hsent

section

variable (h : Keeps P T d₀ given d)
include h

theorem Keeps.greeted (w : World) (hT : T id = true) (link : AgentLink) (inbox : List Frame) :
    Keeps P T d₀ given (d.greeted w id link inbox) := by
  refine Keeps.afterGreet (h.modify hT (fun _ => rfl) (fun _ _ hc => .inr hc) fun s hs => ?_) hT
  simp [Live.pending, greet] at hs

/-- A greeting, for a session of `T`. -/
theorem Keeps.readUnclaimed (w : World) (peer : AgentPeer)
    (hT : ∀ token s, d.live.find? (d.claims peer.uid token) = some s → T s.id = true) :
    Keeps P T d₀ given (d.readUnclaimed w peer).1 := by
  unfold Impl.readUnclaimed
  split
  · exact h
  · exact h
  · split
    · split
      · exact h
      · next s hs =>
        split
        · exact h.write (hT _ s hs) fun _ => ⟨rfl, rfl, rfl, rfl⟩
        · exact h.greeted w (hT _ s hs) _ _
    · exact h

theorem Keeps.disconnected (w : World) (hT : T id = true) (connection : ℕ) :
    Keeps P T d₀ given (d.disconnected w id connection) := by
  unfold Impl.disconnected
  refine Keeps.update ?_ hT fun s => by split_ifs <;> rfl
  exact (h.note (e := .gone _ _ _ _ _) trivial).write hT fun _ => ⟨rfl, rfl, rfl, rfl⟩

theorem Keeps.receiveDisconnect (w : World) (hT : T id = true) (connection : ℕ) :
    Keeps P T d₀ given (d.receiveDisconnect w id connection) := by
  have hd := h.disconnected w hT connection
  have hw : Keeps P T d₀ given ((d.disconnected w id connection).modify id fun s => { s with peer := [] }) :=
    hd.write hT fun _ => ⟨rfl, rfl, rfl, rfl⟩
  unfold Impl.receiveDisconnect
  dsimp only
  split
  · exact hd
  · split_ifs
    · exact hw.release id
    · exact hw
    · exact hd

theorem Keeps.receiveStats (hT : T id = true) (stats : Stats) :
    Keeps P T d₀ given (d.receiveStats id stats) := by
  have hreport : Keeps P T d₀ given (if stats.connectionId ≠ 0 then d.report id stats.connectionId else d) := by
    split_ifs
    · have hu : Keeps P T d₀ given { d with registry := d.registry.adoptConnection id stats.connectionId } :=
        h.update hT fun s => by split_ifs <;> rfl
      exact hu.step rfl rfl (fun _ => .inl) (fun _ => .inl) rfl _ rfl (by simp [Entry.Hands])
    · exact h
  unfold Impl.receiveStats
  refine Keeps.write (Keeps.update hreport hT fun s => ?_) hT fun _ => ⟨rfl, rfl, rfl, rfl⟩
  split_ifs <;> rfl

theorem Keeps.receive (w : World) (hT : T id = true) (m : Message) :
    Keeps P T d₀ given (d.receive w id m) := by
  unfold Impl.receive
  split
  · exact h.receiveDisconnect w hT _
  · exact (h.use id).answer id _ _
  · exact (h.setEnding hT).use id
  · exact h.receiveStats hT _
  · exact h.use id

theorem Keeps.readFrame (w : World) (hT : T id = true) (frame : Frame) (rest : List Frame) :
    Keeps P T d₀ given (readFrame w id frame rest d).1 := by
  have hw : Keeps P T d₀ given (d.modify id fun s => { s with inbox := rest }) :=
    h.write hT fun _ => ⟨rfl, rfl, rfl, rfl⟩
  unfold Impl.readFrame
  split
  · exact h.endSession hT none
  · dsimp only
    split
    · exact hw
    · split
      · exact hw.endSession hT none
      · refine Keeps.receive ?_ w hT _
        exact hw.write hT fun _ => ⟨rfl, rfl, rfl, rfl⟩

end

theorem Keeps.readFrames (w : World) (hT : T id = true) : ∀ (frames : List Frame) {d : Impl}, Keeps P T d₀ given d →
    Keeps P T d₀ given (readFrames w id frames d).1
  | [], _, h => h
  | frame :: rest, _, h => by
    have hread := h.readFrame w hT frame rest
    unfold Impl.readFrames
    dsimp only
    split_ifs
    · exact Keeps.readFrames w hT rest hread
    · exact hread

section

variable (h : Keeps P T d₀ given d)
include h

theorem Keeps.readAgent (hb : Bystanders T d₀) (w : World) (session : ℕ) (frames : List Frame)
    (isOpen : Bool) : Keeps P T d₀ given (d.readAgent w session frames isOpen) := by
  unfold Impl.readAgent
  split
  · exact h
  · next s hs =>
    split_ifs with ha
    · exact h
    · have hT : T session = true := h.of_bystander hb.agent hs ha
      have hw : Keeps P T d₀ given (d.modify session fun s =>
        { s with inbox := s.inbox ++ frames, lastHeard := w.now }) :=
        h.write hT fun _ => ⟨rfl, rfl, rfl, rfl⟩
      have hread := hw.readFrames w hT (s.inbox ++ frames)
      dsimp only
      split_ifs
      · exact hread.endSession hT none
      · exact hread

/-! ### Questions -/

theorem Keeps.letGo (cookie : ℕ) (allowed : Bool) :
    Keeps P T d₀ given (d.letGo cookie allowed) :=
  h.step rfl rfl (fun _ => .inl) (fun _ => .inl) rfl [] (by simp [Impl.letGo]) (by simp)

theorem Keeps.closeQuestion (connection : ℕ) :
    Keeps P T d₀ given (d.closeQuestion connection) :=
  h.step rfl rfl (fun _ => .inl) (fun _ => .inl) rfl [] (by simp [Impl.closeQuestion]) (by simp)

theorem Keeps.openQuestion (w : World) (hT : T id = true) (waiting : Waiting) :
    Keeps P T d₀ given (d.openQuestion w id waiting) :=
  ((h.use id).ask hT d.nextSeatConnection { user := waiting.account } w.now).step rfl rfl (fun _ => .inl)
    (fun _ => .inl) rfl [.seatAsked d.nextSeatConnection waiting.cookie] rfl (by simp [Entry.Hands])

theorem Keeps.questionSeat (w : World) (hT : T id = true) (waiting : Waiting) :
    Keeps P T d₀ given (d.questionSeat w id waiting) := by
  have hsent := fun q => (h.openQuestion w hT waiting).sendTo w hT (m := .consentRequest q) fun _ => trivial
  unfold Impl.questionSeat
  dsimp only
  split_ifs
  · exact hsent _
  · exact ((hsent _).closeQuestion _).letGo _ _

theorem Keeps.askSeat (hb : Bystanders T d₀) (w : World) (waiting : Waiting) :
    Keeps P T d₀ given (d.askSeat w waiting) := by
  unfold Impl.askSeat
  split_ifs
  · exact h.letGo _ _
  split
  · exact h.letGo _ _
  · next state _ =>
    split_ifs with hc
    · exact h.letGo _ _
    have hT : T state.id = true := by
      rw [not_or, Bool.not_eq_false, Option.any_eq_true] at hc
      obtain ⟨⟨s, hs, hlink⟩, -⟩ := hc
      exact h.of_bystander hb.link hs fun hnone => by simp [hnone] at hlink
    split
    · exact (h.sendTo w hT fun _ => (by trivial)).letGo _ _
    · exact (h.sendTo w hT fun _ => (by trivial)).letGo _ _
    · exact h.questionSeat w hT waiting

end

/-- A loop over a list. -/
theorem Keeps.foldl {f : Impl → α → Impl} : ∀ {l : List α} {d : Impl},
    (∀ a ∈ l, ∀ {d}, Keeps P T d₀ given d → Keeps P T d₀ given (f d a)) → Keeps P T d₀ given d →
      Keeps P T d₀ given (l.foldl f d)
  | [], _, _, h => h
  | a :: l, _, hf, h =>
    Keeps.foldl (l := l) (fun b hb _ => hf b (mem_cons_of_mem _ hb)) (hf a mem_cons_self h)

section

variable (h : Keeps P T d₀ given d)
include h

theorem Keeps.askTheSeat (hb : Bystanders T d₀) (w : World) :
    Keeps P T d₀ given (d.askTheSeat w) := by
  refine Keeps.foldl (fun waiting _ _ h => h.askSeat hb w waiting) ?_
  exact h.step rfl rfl (fun _ => .inl) (fun _ => .inl) rfl [] (by simp [takeLogins]) (by simp)

theorem Keeps.tellSeat (w : World) (hT : T r.session = true) :
    Keeps P T d₀ given (d.tellSeat w r) := by
  unfold Impl.tellSeat
  dsimp only
  split_ifs
  · exact (h.sendTo w hT fun _ => (by trivial)).sendTo w hT fun _ => (by trivial)
  · exact h.sendTo w hT fun _ => (by trivial)
  · exact h.sendTo w hT fun _ => (by trivial)
  · exact h

theorem Keeps.answerClient (w : World) (hT : T r.session = true)
    (hP : P client) : Keeps P T d₀ given (d.answerClient w r client) := by
  unfold Impl.answerClient
  split_ifs
  · exact h.handOver w hT hP
  · exact h.refuse _ _ _

theorem Keeps.resolveClient (w : World) (hT : T r.session = true) :
    Keeps P T d₀ given (d.resolveClient w r) := by
  unfold Impl.resolveClient
  split
  · exact h
  · next client hc =>
    obtain ⟨s, hs, ha⟩ := Option.bind_eq_some_iff.mp hc
    have hP := h.of_find hs (.inr ha)
    have hm := h.unask hT
    dsimp only
    split_ifs
    · exact h
    · exact (hm.sendTo w hT fun _ => (by trivial)).answerClient w hT hP
    · exact (hm.sendTo w hT fun _ => (by trivial)).refuse _ _ _
    · exact hm.answerClient w hT hP

theorem Keeps.resolve (w : World) (hT : T r.session = true) :
    Keeps P T d₀ given (d.resolve w r) := by
  unfold Impl.resolve
  split
  · exact (((h.note (e := .settled _ _) trivial).tellSeat w hT).letGo _ _).closeQuestion _
  · exact (h.note (e := .settled _ _) trivial).resolveClient w hT

end

theorem Keeps.settleLoop (w : World) : ∀ (n : ℕ) {d : Impl}, Keeps P T d₀ given d →
    Keeps P T d₀ given (settleLoop w n d)
  | 0, _, h => h
  | n + 1, d, h => by
    unfold Impl.settleLoop
    split
    · exact h
    · next r rest hr =>
      have hpop : Keeps P T d₀ given { d with resolutions := rest } := by
        refine h.step rfl rfl (fun _ => .inl) (fun r' hr' => .inl ?_) rfl [] (by simp) (by simp)
        rw [hr]
        exact mem_cons_of_mem _ hr'
      have hT : T r.session = true := h.resolutions r (by rw [hr]; exact mem_cons_self)
      exact Keeps.settleLoop w n (hpop.resolve w hT)

/-! ### Ticks -/

theorem Keeps.terminate (h : Keeps P T d₀ given d) (w : World) (hT : T id = true) :
    Keeps P T d₀ given (d.terminate w id) := by
  unfold Impl.terminate
  split
  · exact h
  · refine Keeps.use (Keeps.setEnding (Keeps.sendTo ?_ w hT fun _ => (by trivial)) hT) id
    exact h.write hT fun _ => ⟨rfl, rfl, rfl, rfl⟩

theorem Keeps.terminateRequested (h : Keeps P T d₀ given d) (w : World) : Keeps P T d₀ given (d.terminateRequested w) :=
  Keeps.foldl (fun id hid _ h' => h'.terminate w (h.terminations id hid))
    ⟨h.clients, h.handed, h.prompts, h.resolutions, by simp, h.records, h.sessions, h.running, h.pending, h.ids,
      h.next, h.log⟩

theorem Keeps.act (h : Keeps P T d₀ given d) (w : World) {a : Action} (hT : T a.session = true) :
    Keeps P T d₀ given (d.act w a) := by
  unfold Impl.act
  split
  · exact h
  · split
    · exact h.sendTo w hT fun _ => (by trivial)
    · refine Keeps.sendTo ?_ w hT fun _ => (by trivial)
      exact h.write hT fun _ => ⟨rfl, rfl, rfl, rfl⟩

/-- The policies look at running sessions only. -/
theorem dueSession_of_not_running {policy : PolicySection} {now : Time} {s : Session} (h : s.state ≠ .running) :
    dueSession policy now s = (s, []) := by
  unfold dueSession
  exact if_pos h

theorem dueSession_id (policy : PolicySection) (now : Time) (s : Session) :
    (dueSession policy now s).1.id = s.id ∧ ∀ a ∈ (dueSession policy now s).2, a.session = s.id := by
  unfold dueSession
  dsimp only
  split_ifs <;> simp

/-- A change of all sessions or records that leaves those outside `T`. -/
theorem filter_map_keeps {g : α → ℕ} {f : α → α} : ∀ {l : List α}, (∀ s, g (f s) = g s) →
    (∀ s ∈ l, T (g s) = false → f s = s) → ((l.map f).filter fun s => ! T (g s)) = l.filter fun s => ! T (g s)
  | [], _, _ => rfl
  | s :: l, hg, hf => by
    have ih := filter_map_keeps (l := l) hg fun s hs => hf s (mem_cons_of_mem _ hs)
    rw [map_cons, filter_cons, filter_cons, ih, hg]
    by_cases hT : T (g s) = true
    · simp [hT]
    · rw [hf s mem_cons_self (Bool.eq_false_iff.mpr hT)]

theorem Keeps.applyPolicies (h : Keeps P T d₀ given d) (w : World) : Keeps P T d₀ given (d.applyPolicies w) := by
  have hstill : ∀ s ∈ d.registry.sessions, T s.id = false → s.state ≠ .running := by
    intro s hs hT hr
    rw [h.running s hs hr] at hT
    cases hT
  refine Keeps.foldl (fun a ha _ h' => h'.act w ?_) (h.registry rfl ?_ fun s hs hr => .inl ?_)
  · obtain ⟨s, hs, ha⟩ := mem_flatMap.mp ha
    rw [(dueSession_id _ _ s).2 a ha]
    by_contra hT
    rw [dueSession_of_not_running (hstill s hs (Bool.eq_false_iff.mpr hT))] at ha
    cases ha
  · refine filter_map_keeps (fun s => (dueSession_id _ _ s).1) fun s hs hT => ?_
    rw [dueSession_of_not_running (hstill s hs hT)]
  · obtain ⟨s₀, hs₀, rfl⟩ := mem_map.mp hs
    rw [(dueSession_id _ _ s₀).1]
    by_contra hT
    rw [dueSession_of_not_running (hstill s₀ hs₀ (Bool.eq_false_iff.mpr hT))] at hr
    exact hstill s₀ hs₀ (Bool.eq_false_iff.mpr hT) hr

theorem Keeps.endFound (h : Keeps P T d₀ given d) (hT : T id = true) : Keeps P T d₀ given (d.endFound id) := by
  unfold Impl.endFound
  split_ifs
  · exact h.endSession hT none
  · exact h

theorem Keeps.endSilent (h : Keeps P T d₀ given d) (hb : Bystanders T d₀) (w : World) :
    Keeps P T d₀ given (d.endSilent w) := by
  refine Keeps.foldl (fun id hid _ h' => h'.endFound ?_) h
  obtain ⟨s, hs, rfl⟩ := mem_map.mp hid
  obtain ⟨hs, hsilent⟩ := mem_filter.mp hs
  exact h.of_mem hb.link hs fun hnone => by simp [hnone] at hsilent

theorem reap_same (w : World) (s : Live) : (if s.process.any w.exited then { s with process := none } else s).id =
    s.id ∧
    (if s.process.any w.exited then { s with process := none } else s).waiting = s.waiting ∧
    (if s.process.any w.exited then { s with process := none } else s).asking = s.asking ∧
    (if s.process.any w.exited then { s with process := none } else s).pending = s.pending := by
  split_ifs <;> exact ⟨rfl, rfl, rfl, rfl⟩

theorem Keeps.reap (h : Keeps P T d₀ given d) (hb : Spared T w d₀) : Keeps P T d₀ given (d.reap w) where
  clients := fun c hc => by
    obtain ⟨s', hs', hc⟩ := mem_clients.mp hc
    obtain ⟨s, hs, rfl⟩ := mem_map.mp hs'
    rw [(reap_same w s).2.1, (reap_same w s).2.2.1] at hc
    exact h.clients c (mem_clients.mpr ⟨s, hs, hc⟩)
  handed := h.handed
  prompts := h.prompts
  resolutions := h.resolutions
  terminations := h.terminations
  records := by
    rw [← h.records]
    refine filter_map_keeps (fun s => (reap_same w s).1) fun s hs hT => if_neg ?_
    rw [Bool.not_eq_true]
    exact hb.process s (h.mem_initial hs hT) hT
  sessions := h.sessions
  running := h.running
  pending := by
    have hsame : (d.reap w).pendingIds = d.pendingIds := by
      rw [pendingIds, Impl.reap, filter_map, map_map]
      refine congrArg₂ List.map (funext fun s => (reap_same w s).1) (filter_congr fun s _ => ?_)
      rw [Function.comp_apply, (reap_same w s).2.2.2]
    rw [hsame]
    exact h.pending
  ids := fun s hs => by
    obtain ⟨s₀, hs₀, rfl⟩ := mem_map.mp hs
    rw [(reap_same w s₀).1]
    exact h.ids s₀ hs₀
  next := h.next
  log := h.log

theorem Keeps.endOverdue (h : Keeps P T d₀ given d) (hb : Spared T w d₀) : Keeps P T d₀ given (d.endOverdue w) := by
  refine Keeps.foldl (fun id hid _ h' => h'.endFound ?_) (h.reap hb)
  obtain ⟨s, hs, hid⟩ := mem_flatMap.mp hid
  by_contra hT
  rcases mem_append.mp hid with hid | hid
  · split_ifs at hid with hexit
    · rw [mem_singleton.mp hid, Bool.not_eq_true] at hT
      rw [hb.process s (h.mem_initial hs hT) hT] at hexit
      cases hexit.1
    · cases hid
  · split_ifs at hid with hlate
    · rw [mem_singleton.mp hid, Bool.not_eq_true] at hT
      have hs₀ := h.mem_initial hs hT
      rcases hlate with ⟨-, hlate⟩ | hlate
      · exact absurd (hb.young s hs₀ hT) (not_le.mpr hlate)
      · simp [hb.terminateSent s hs₀ hT] at hlate
    · cases hid

/-! ### Sessions from before the restart -/

theorem Keeps.giveUp (h : Keeps P T d₀ given d) (w : World) (hT : T id = true) (hnext : T (d₀.nextAfter given) = true) :
    ∃ given', (given' = given ∨ given' = d₀.nextAfter given :: given) ∧ Keeps P T d₀ given' (d.giveUp w id) := by
  unfold Impl.giveUp
  split
  · exact ⟨given, .inl rfl, h⟩
  · next s hs =>
    have hm : Keeps P T d₀ given (d.modify id fun s => { s with reattachDeadline := none, waiting := none }) :=
      h.modify hT (fun _ => rfl) (fun _ _ hc => .inr (.inr (hc.resolve_left (by simp)))) fun s hs => by
        simp [Live.pending] at hs
    have he := hm.endSession hT none
    split
    · exact ⟨given, .inl rfl, he⟩
    · next client hc => exact ⟨_, .inr rfl, he.startSession w (h.of_find hs (.inl hc)) hnext _ _ _ _⟩

/-! ### All sessions -/

/-- All clients of the daemon, and all that were brought to an agent, have
`P`. -/
def Forwards (P : Authenticated → Prop) (d : Impl) : Prop := (∀ c ∈ d.clients, P c) ∧ ∀ e ∈ d.log, e.Hands P

theorem Forwards.kept (h : Forwards P d) : Keeps P (fun _ => true) d [] d :=
  ⟨h.1, h.2, fun _ _ => rfl, fun _ _ => rfl, fun _ _ => rfl, rfl, rfl, fun _ _ _ => rfl, .refl _,
    fun s hs => .inl ⟨s, hs, rfl⟩, rfl, prefix_refl _⟩

theorem Keeps.forwards (h : Keeps P T d₀ given d) : Forwards P d := ⟨h.clients, h.handed⟩

/-- With every session in the set there is nobody outside it. -/
theorem bystanders_all (d : Impl) : Bystanders (fun _ => true) d :=
  ⟨fun _ _ h => (by cases h), fun _ _ h => (by cases h)⟩

theorem spared_all (w : World) (d : Impl) : Spared (fun _ => true) w d :=
  ⟨fun _ _ h => (by cases h), fun _ _ h => (by cases h), fun _ _ h => (by cases h)⟩

theorem Forwards.of_eq (h : Forwards P d) {d' : Impl} (hlive : d'.live = d.live) (hlog : d'.log = d.log) :
    Forwards P d' :=
  ⟨fun c hc => h.1 c (mem_clients_of_live hlive hc), fun e he => h.2 e (hlog ▸ he)⟩

theorem Forwards.foldl {f : Impl → α → Impl} (hf : ∀ {d} a, Forwards P d → Forwards P (f d a)) :
    ∀ (l : List α) {d : Impl}, Forwards P d → Forwards P (l.foldl f d)
  | [], _, h => h
  | a :: l, _, h => Forwards.foldl hf l (hf a h)

theorem Forwards.giveUp (h : Forwards P d) (w : World) (id : ℕ) : Forwards P (d.giveUp w id) := by
  obtain ⟨_, -, hk⟩ : ∃ given', _ ∧ Keeps P (fun _ => true) d given' (d.giveUp w id) := h.kept.giveUp w rfl rfl
  exact hk.forwards

end

end Impl
end Daemon
end Farland
