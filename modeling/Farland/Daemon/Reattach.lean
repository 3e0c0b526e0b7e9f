/-
# Sessions from before a restart

A farlandd that starts again reads the sessions of the one before and waits
for their agents. Such a session keeps its record until the agent greets, the
deadline passes, or somebody comes for it whose login session is gone; a
client that waits for it gets a session of its own then (`run_reattach`).

Two things can come in between and are kept out here: the start timeout, which
is shorter than the reattach window and makes no difference between the
sessions of this farlandd and the ones from before, and session ids, which are
32 bits wide, so that a new session may get the id of one that waits.

`gone_login_session` ends a session that waits before its time.
-/
import Farland.Daemon.Kept

namespace Farland
namespace Daemon

open Server Server.Broker List SessionRegistry

namespace Impl

variable {s : Live} {id n : ℕ} {f : Live → Live}

/-! ### Sessions that wait -/

/-- No session of this id waits for its agent. -/
def settled (d : Impl) (id : ℕ) : Bool := ! d.pendingIds.contains id

/-- The sessions that a step may write to: the settled ones and some more. -/
def reached (d : Impl) (more : List ℕ) (id : ℕ) : Bool := d.settled id || more.contains id

theorem mem_pendingIds {d : Impl} : id ∈ d.pendingIds ↔ ∃ s ∈ d.live, s.pending = true ∧ s.id = id := by
  simp [pendingIds, and_assoc]

theorem settled_iff {d : Impl} : d.settled id = true ↔ id ∉ d.pendingIds := by
  simp [settled]

theorem reached_iff {d : Impl} {more : List ℕ} : d.reached more id = true ↔ id ∉ d.pendingIds ∨ id ∈ more := by
  simp [reached, settled_iff]

theorem reached_eq_false {d : Impl} {more : List ℕ} :
    d.reached more id = false ↔ id ∈ d.pendingIds ∧ id ∉ more := by
  rw [← Bool.not_eq_true, reached_iff]
  simp

/-- What holds between the steps of a run: a session that waits is alone with
its id and has nobody, and the next ids are apart from those that wait, with
room for the clients to come. -/
structure Reattaching (bound remaining : ℕ) (d : Impl) : Prop where
  alone : ∀ s ∈ d.live, s.pending = true → (d.live.filter fun s' => s'.id == s.id) = [s]
  idle : ∀ s ∈ d.live, s.pending = true →
    s.link = none ∧ s.agent = false ∧ s.process = none ∧ s.terminateSent = none
  handed : ∀ e ∈ d.log, e.Hands fun _ => True
  prompts : ∀ p ∈ d.consent.prompts, p.session ∉ d.pendingIds
  resolutions : ∀ r ∈ d.resolutions, r.session ∉ d.pendingIds
  terminations : ∀ id ∈ d.terminations, id ∉ d.pendingIds
  running : ∀ s ∈ d.registry.sessions, s.state = .running → s.id ∉ d.pendingIds
  nodup : d.pendingIds.Nodup
  apart : ∀ s ∈ d.live, s.id < d.registry.nextId ∨ bound ≤ s.id
  room : d.registry.nextId + d.pendingIds.length + remaining ≤ bound
  bound : bound < 2 ^ 32

section

variable {bound remaining remaining' : ℕ} {d d' : Impl} {w : World} {e : Event} {more given : List ℕ}

theorem Reattaching.eq_of_id (h : Reattaching bound remaining d) {s' : Live} (hs : s ∈ d.live)
    (hp : s.pending = true) (hs' : s' ∈ d.live) (hid : s'.id = s.id) : s' = s := by
  have hmem : s' ∈ d.live.filter fun s' => s'.id == s.id := mem_filter.mpr ⟨hs', by simp [hid]⟩
  rw [h.alone s hs hp] at hmem
  exact mem_singleton.mp hmem

theorem Reattaching.pending_of_reached (h : Reattaching bound remaining d) (hs : s ∈ d.live)
    (hT : d.reached more s.id = false) : s.pending = true ∧ s.id ∉ more := by
  obtain ⟨hid, hmore⟩ := reached_eq_false.mp hT
  obtain ⟨s', hs', hp, heq⟩ := mem_pendingIds.mp hid
  rw [h.eq_of_id hs' hp hs heq.symm]
  rw [heq]
  exact ⟨hp, hmore⟩

/-- Nothing has happened yet. -/
theorem Reattaching.kept (h : Reattaching bound remaining d) (more : List ℕ) :
    Keeps (fun _ => True) (d.reached more) d [] d :=
  ⟨fun _ _ => trivial, h.handed, fun p hp => reached_iff.mpr (.inl (h.prompts p hp)),
    fun r hr => reached_iff.mpr (.inl (h.resolutions r hr)),
    fun id hid => reached_iff.mpr (.inl (h.terminations id hid)), rfl, rfl,
    fun s hs hr => reached_iff.mpr (.inl (h.running s hs hr)), .refl _, fun s hs => .inl ⟨s, hs, rfl⟩, rfl,
    prefix_refl _⟩

theorem Reattaching.bystanders (h : Reattaching bound remaining d) (more : List ℕ) :
    Bystanders (d.reached more) d :=
  ⟨fun s hs hT => (h.idle s hs (h.pending_of_reached hs hT).1).1,
    fun s hs hT => (h.idle s hs (h.pending_of_reached hs hT).1).2.1⟩

/-- The next id is that of no session that waits. -/
theorem Reattaching.reached_next (h : Reattaching bound remaining d) (more : List ℕ)
    (hn : d.registry.nextId ≤ n) (hb : n < bound) : d.reached more n = true := by
  refine reached_iff.mpr (.inl fun hmem => ?_)
  obtain ⟨s, hs, -, rfl⟩ := mem_pendingIds.mp hmem
  have := h.apart s hs
  omega

/-- A record outside what is reached is as it was. -/
theorem Keeps.mem_of_initial {P : Authenticated → Prop} {T : ℕ → Bool} {d₀ : Impl} (h : Keeps P T d₀ given d)
    (hs : s ∈ d₀.live) (hT : T s.id = false) : s ∈ d.live := by
  have hmem : s ∈ d.live.filter fun s => ! T s.id := by
    rw [h.records]
    exact mem_filter.mpr ⟨hs, by simp [hT]⟩
  exact mem_of_mem_filter hmem

/-- **What a step keeps**, if the sessions that it reached do not wait any
more. -/
theorem Reattaching.of_kept (h : Reattaching bound remaining d) (hk : Keeps (fun _ => True) (d.reached more) d given d')
    (hgone : ∀ id ∈ more, id ∉ d'.pendingIds) (hnext : d.registry.nextId ≤ d.nextAfter given)
    (hgiven : ∀ id ∈ given, id < d.nextAfter given)
    (hroom : d.nextAfter given + d'.pendingIds.length + remaining' ≤ bound) : Reattaching bound remaining' d' := by
  have hsub : ∀ {id}, id ∈ d'.pendingIds → id ∈ d.pendingIds := fun hid => hk.pending.subset hid
  have hfalse : ∀ {id}, id ∈ d'.pendingIds → d.reached more id = false := fun hid =>
    reached_eq_false.mpr ⟨hsub hid, fun hmore => hgone _ hmore hid⟩
  have hout : ∀ {id}, d.reached more id = true → id ∉ d'.pendingIds := fun hT hid => by
    rw [hfalse hid] at hT
    cases hT
  have hold : ∀ s ∈ d'.live, s.pending = true → s ∈ d.live ∧ d.reached more s.id = false := fun s hs hp =>
    have hT := hfalse (mem_pendingIds.mpr ⟨s, hs, hp, rfl⟩)
    ⟨hk.mem_initial hs hT, hT⟩
  refine ⟨fun s hs hp => ?_, fun s hs hp => h.idle s (hold s hs hp).1 hp, hk.handed, fun p hm => hout (hk.prompts p hm),
    fun r hm => hout (hk.resolutions r hm), fun id hm => hout (hk.terminations id hm),
    fun s hs hr => hout (hk.running s hs hr), hk.pending.nodup h.nodup, fun s hs => ?_, by rw [hk.next]; exact hroom,
    h.bound⟩
  · obtain ⟨hs₀, hT⟩ := hold s hs hp
    rw [hk.filter_id hT, h.alone s hs₀ hp]
  · rw [hk.next]
    rcases hk.ids s hs with ⟨s₀, hs₀, hid⟩ | hid
    · rw [← hid]
      exact (h.apart s₀ hs₀).imp (fun hlt => hlt.trans_le hnext) fun hb => hb
    · exact .inl (hgiven s.id hid)

/-- A step that reaches no session that waits. -/
theorem Reattaching.quiet (h : Reattaching bound remaining d)
    (hk : Keeps (fun _ => True) (d.reached []) d [] d') (hr : remaining' ≤ remaining) :
    Reattaching bound remaining' d' := by
  refine h.of_kept hk (fun id hid => by cases hid) le_rfl (fun id hid => by cases hid) ?_
  have h1 := hk.pending.length_le
  have h2 := h.room
  rw [nextAfter]
  omega

/-- A step that may create a session. -/
theorem Reattaching.creates (h : Reattaching bound (remaining + 1) d)
    (hk : Keeps (fun _ => True) (d.reached more) d given d') (hgiven : given = [] ∨ given = [d.nextAfter []])
    (hgone : ∀ id ∈ more, id ∉ d'.pendingIds) : Reattaching bound remaining d' := by
  have hlen := hk.pending.length_le
  have hroom := h.room
  have hbound := h.bound
  rcases hgiven with rfl | rfl
  · refine h.of_kept hk hgone le_rfl (fun id hid => by cases hid) ?_
    rw [nextAfter]
    omega
  · have hnext : d.nextAfter [d.nextAfter []] = d.registry.nextId + 1 := Nat.mod_eq_of_lt (by rw [nextAfter]; omega)
    refine h.of_kept hk hgone (by omega) (fun id hid => ?_) (by omega)
    rw [mem_singleton.mp hid, hnext]
    exact Nat.lt_succ_self _

/-! ### A session of one's own -/

/-- What comes of `startSession` for a client, with a session id from `next`
on: it waits in the new session, it was refused, or the new session could not
be started. -/
inductive Started (w : World) (client : Authenticated) (next : ℕ) (d : Impl) : Prop where
  | waits (s : Live) (mem : s ∈ d.live) (new : next ≤ s.id) (waiting : s.waiting = some client)
  | refused (mem : .refused client.id errinfoOutOfMemory (text "no randomness for a session token") ∈ d.log)
  | failed (session : ℕ) (new : next ≤ session ∧ session < d.registry.nextId)
    (fails : ∀ process, w.started session = some process → w.exited process = true)

/-- The record of a new session. -/
structure Opens (w : World) (client : Authenticated) (session : ℕ) (s : Live) : Prop where
  id : s.id = session
  waiting : s.waiting = some client
  created : s.created = w.now
  link : s.link = none
  terminateSent : s.terminateSent = none
  process : ∀ process, s.process = some process → w.started session = some process

theorem startSession_cases (d : Impl) (w : World) (client : Authenticated) (account : Text) (user : Option Account)
    (attach ownShell : Bool) :
    .refused client.id errinfoOutOfMemory (text "no randomness for a session token") ∈
        (d.startSession w client account user attach ownShell).log ∨
      w.started d.registry.nextId = none ∨
      ∃ s, Opens w client d.registry.nextId s ∧
        (d.startSession w client account user attach ownShell).live = d.live ++ [s] := by
  unfold startSession
  dsimp only
  split
  · exact .inl (mem_append_right _ (mem_singleton_self _))
  · split_ifs
    · exact .inr (.inr ⟨_, ⟨rfl, rfl, rfl, rfl, rfl, fun _ hp => (by cases hp)⟩, rfl⟩)
    · split
      · next hnone => exact .inr (.inl hnone)
      · next process hsome =>
        refine .inr (.inr ⟨_, ⟨rfl, rfl, rfl, rfl, rfl, fun p hp => ?_⟩, rfl⟩)
        cases hp
        exact hsome

theorem startSession_started (w : World) (client : Authenticated) (account : Text) (user : Option Account)
    (attach ownShell : Bool) (hn : n ≤ d.registry.nextId)
    (hnext : (d.startSession w client account user attach ownShell).registry.nextId = d.registry.nextId + 1) :
    Started w client n (d.startSession w client account user attach ownShell) := by
  rcases startSession_cases d w client account user attach ownShell with h | h | ⟨s, hs, h⟩
  · exact .refused h
  · refine .failed d.registry.nextId ⟨hn, by omega⟩ fun process hp => ?_
    rw [h] at hp
    cases hp
  · refine .waits s ?_ (by rw [hs.id]; exact hn) hs.waiting
    rw [h]
    exact mem_append_right _ (mem_singleton_self s)

theorem registry_endSession (d : Impl) (id : ℕ) (cause : Option Message) :
    (d.endSession id cause).registry.nextId = d.registry.nextId := by
  unfold endSession dropRecord
  dsimp only
  split <;> split_ifs <;> rfl

theorem not_mem_pendingIds_endSession (d : Impl) (id : ℕ) (cause : Option Message) :
    id ∉ (d.endSession id cause).pendingIds := by
  intro hmem
  obtain ⟨s, hs, -, hid⟩ := mem_pendingIds.mp hmem
  rw [(endSession_spec d id cause).live] at hs
  simp [hid] at hs

/-! ### A client comes -/

/-- A client waits for the session; it does not wait longer than the grace. -/
def joined (w : World) (client : Authenticated) (s : Live) : Live :=
  { s with
    waiting := some client
    reattachDeadline := s.reattachDeadline.map fun t => min t (w.now + reattachGraceWithClient) }

/-- The login session of a session that waits has gone, and the client that
comes gets a session of its own. -/
structure Replaced (w : World) (client : Authenticated) (s : Live) (d d' : Impl) : Prop where
  named : s.loginSession ≠ []
  gone : w.loginSessionExists s.loginSession = false
  started : Started w client d.registry.nextId d'

theorem Reattaching.find (h : Reattaching bound remaining d) (hs : s ∈ d.live) (hp : s.pending = true) :
    d.find s.id = some s := by
  have hfind : d.find s.id = (d.live.filter fun s' => s'.id == s.id).head? := head?_filter.symm
  rw [hfind, h.alone s hs hp, head?_cons]

theorem filter_self_updateFirst (hid : ∀ s, (f s).id = s.id) : ∀ l : List Live,
    ((updateFirst id f l).filter fun s => s.id == id) = updateFirst id f (l.filter fun s => s.id == id)
  | [] => rfl
  | s :: l => by
    by_cases hs : s.id = id
    · simp [updateFirst, hs, hid]
    · simp [updateFirst, hs, filter_self_updateFirst hid l]

theorem filter_other_updateFirst {j : ℕ} (hid : ∀ s, (f s).id = s.id) (hj : j ≠ id)
    (l : List Live) : ((updateFirst id f l).filter fun s => s.id == j) = l.filter fun s => s.id == j := by
  have h := filter_updateFirst (T := fun i => ! (i == j)) hid (by simpa using hj.symm) l
  simpa using h

theorem Reattaching.filter_modify (h : Reattaching bound remaining d) (hs : s ∈ d.live) (hp : s.pending = true)
    (hid : ∀ s, (f s).id = s.id) :
    ((d.modify s.id f).live.filter fun s' => s'.id == s.id) = [f s] := by
  refine (filter_self_updateFirst hid d.live).trans ?_
  rw [h.alone s hs hp]
  simp [updateFirst]

/-- A write to a session that waits, which goes on waiting. -/
theorem Reattaching.modify (h : Reattaching bound remaining d) (hs : s ∈ d.live) (hp : s.pending = true)
    (hid : ∀ s, (f s).id = s.id) (hpend : ∀ s, (f s).pending = s.pending)
    (hidle : ∀ s, (f s).link = s.link ∧ (f s).agent = s.agent ∧ (f s).process = s.process ∧
      (f s).terminateSent = s.terminateSent) :
    Reattaching bound remaining (d.modify s.id f) ∧ f s ∈ (d.modify s.id f).live ∧
      ∀ s' ∈ d.live, s'.pending = true → s' ≠ s → s' ∈ (d.modify s.id f).live := by
  have hk : Keeps (fun _ => True) (d.reached [s.id]) d [] (d.modify s.id f) :=
    (h.kept [s.id]).modify (reached_iff.mpr (.inr (by simp))) hid (fun _ _ _ => .inl trivial) fun s hs => by
      rwa [hpend] at hs
  have hself := h.filter_modify hs hp hid
  have hmem : f s ∈ (d.modify s.id f).live := by
    have : f s ∈ (d.modify s.id f).live.filter fun s' => s'.id == s.id := by
      rw [hself]
      exact mem_singleton_self _
    exact mem_of_mem_filter this
  have hsub : ∀ {id}, id ∈ (d.modify s.id f).pendingIds → id ∈ d.pendingIds := fun hid => hk.pending.subset hid
  have hlen := hk.pending.length_le
  have hroom := h.room
  refine ⟨⟨fun s' hs' hp' => ?_, fun s' hs' hp' => ?_, hk.handed, fun p hm hid => h.prompts p hm (hsub hid),
    fun r hm hid => h.resolutions r hm (hsub hid), fun id hm hid => h.terminations id hm (hsub hid),
    fun r hm hr hid => h.running r hm hr (hsub hid), hk.pending.nodup h.nodup, fun s' hs' => ?_, ?_, h.bound⟩, hmem,
    fun s' hs' hp' hne => ?_⟩
  · by_cases heq : s'.id = s.id
    · have : s' ∈ (d.modify s.id f).live.filter fun s' => s'.id == s.id := mem_filter.mpr ⟨hs', by simp [heq]⟩
      rw [hself] at this
      rw [heq, hself, mem_singleton.mp this]
    · have hold : s' ∈ d.live := by
        rcases mem_updateFirst hs' with hs' | ⟨s₀, -, hs₀, rfl⟩
        · exact hs'
        · exact absurd ((hid s₀).trans hs₀) heq
      exact (filter_other_updateFirst hid heq d.live).trans (h.alone s' hold hp')
  · rcases mem_updateFirst hs' with hs' | ⟨s₀, hs₀, heq, rfl⟩
    · exact h.idle s' hs' hp'
    · rw [(hidle s₀).1, (hidle s₀).2.1, (hidle s₀).2.2.1, (hidle s₀).2.2.2, h.eq_of_id hs hp hs₀ heq]
      exact h.idle s hs hp
  · rcases mem_updateFirst hs' with hs' | ⟨s₀, hs₀, -, rfl⟩
    · exact h.apart s' hs'
    · rw [hid]
      exact h.apart s₀ hs₀
  · rw [hk.next, nextAfter]
    omega
  · refine hk.mem_of_initial hs' (reached_eq_false.mpr ⟨mem_pendingIds.mpr ⟨s', hs', hp', rfl⟩, fun hm => hne ?_⟩)
    exact h.eq_of_id hs hp hs' (mem_singleton.mp hm)

/-- What becomes of a session that waits when a client comes. -/
def Met (w : World) (client : Authenticated) (s : Live) (d d' : Impl) : Prop :=
  s ∈ d'.live ∨ joined w client s ∈ d'.live ∨ Replaced w client s d d'

/-- The client comes for a session whose login session is gone. -/
theorem Reattaching.replace (h : Reattaching bound (remaining + 1) d) (hs : s ∈ d.live)
    (hp : s.pending = true) (w : World) (client : Authenticated) (account : Text) (user : Option Account)
    (attach ownShell : Bool) :
    Reattaching bound remaining ((d.endSession s.id none).startSession w client account user attach ownShell) ∧
      (∀ s' ∈ d.live, s'.pending = true → s' ≠ s →
        s' ∈ ((d.endSession s.id none).startSession w client account user attach ownShell).live) ∧
      Started w client d.registry.nextId
        ((d.endSession s.id none).startSession w client account user attach ownShell) := by
  have hroom := h.room
  have hbound := h.bound
  have hnext : d.reached [s.id] (d.nextAfter []) = true := h.reached_next _ le_rfl (by rw [nextAfter]; omega)
  have hended := (h.kept [s.id]).endSession (reached_iff.mpr (.inr (mem_singleton_self s.id))) none
  have hk : Keeps (fun _ => True) (d.reached [s.id]) d [d.nextAfter []]
      ((d.endSession s.id none).startSession w client account user attach ownShell) :=
    hended.startSession w trivial hnext account user attach ownShell
  have hpending : ((d.endSession s.id none).startSession w client account user attach ownShell).pendingIds.Sublist
      (d.endSession s.id none).pendingIds :=
    (hended.forwards.kept.startSession w trivial rfl account user attach ownShell).pending
  refine ⟨h.creates hk (.inr rfl) fun id hid hmem => ?_, fun s' hs' hp' hne => ?_, ?_⟩
  · rw [mem_singleton.mp hid] at hmem
    exact not_mem_pendingIds_endSession d s.id none (hpending.subset hmem)
  · refine hk.mem_of_initial hs' (reached_eq_false.mpr ⟨mem_pendingIds.mpr ⟨s', hs', hp', rfl⟩, fun hid => hne ?_⟩)
    exact h.eq_of_id hs hp hs' (mem_singleton.mp hid)
  · have hn : (d.endSession s.id none).registry.nextId = d.registry.nextId := hended.next
    refine startSession_started w client account user attach ownShell (le_of_eq hn.symm) ?_
    rw [hk.next, hn]
    exact Nat.mod_eq_of_lt (by rw [nextAfter]; omega)

/-- A session that waits stays if it is not reached. -/
theorem Reattaching.stays (hk : Keeps (fun _ => True) (d.reached more) d given d') (hs : s ∈ d.live)
    (hp : s.pending = true) (hid : s.id ∉ more) : s ∈ d'.live :=
  hk.mem_of_initial hs (reached_eq_false.mpr ⟨mem_pendingIds.mpr ⟨s, hs, hp, rfl⟩, hid⟩)

/-- The client comes for a session that waits. -/
theorem Reattaching.deliver (h : Reattaching bound remaining d) (hs : s ∈ d.live) (hp : s.pending = true)
    (w : World) (client : Authenticated) (atTheMachine : Bool) :
    Reattaching bound remaining (d.deliver w s.id client atTheMachine) ∧
      ∀ s' ∈ d.live, s'.pending = true → Met w client s' d (d.deliver w s.id client atTheMachine) := by
  have huse : Reattaching bound remaining (d.use s.id) := h.quiet ((h.kept []).use s.id) le_rfl
  have heq : d.deliver w s.id client atTheMachine = (d.use s.id).modify s.id (joined w client) := by
    unfold Impl.deliver
    dsimp only
    rw [find_use, h.find hs hp]
    exact if_pos (h.idle s hs hp).1
  obtain ⟨hjoin, hmem, hothers⟩ := huse.modify (s := s) (f := joined w client) hs hp (fun _ => rfl)
    (fun _ => by simp [joined, Live.pending]) fun _ => ⟨rfl, rfl, rfl, rfl⟩
  rw [heq]
  refine ⟨hjoin, fun s' hs' hp' => ?_⟩
  by_cases hne : s' = s
  · rw [hne]
    exact .inr (.inl hmem)
  · exact .inl (hothers s' hs' hp' hne)

theorem Reattaching.place (h : Reattaching bound (remaining + 1) d) (w : World) (client : Authenticated)
    (user : Option Account) (decision : Decision) :
    Reattaching bound remaining (d.place w client user decision) ∧
      ∀ s ∈ d.live, s.pending = true → Met w client s d (d.place w client user decision) := by
  by_cases hex : decision.admission = .existing ∧ ∃ s, d.find decision.session = some s ∧ s.pending = true
  · obtain ⟨ha, s, hfind, hp⟩ := hex
    have hs := (mem_of_find hfind).1
    unfold Impl.place
    rw [ha]
    rw [hfind]
    dsimp only
    split_ifs with hgone
    · obtain ⟨hre, hothers, hstarted⟩ := h.replace hs hp w client client.account user
        ((d.registry.find s.id).any (·.attached)) false
      refine ⟨hre, fun s' hs' hp' => ?_⟩
      by_cases hne : s' = s
      · rw [hne]
        exact .inr (.inr ⟨hgone.1, hgone.2.2, hstarted⟩)
      · exact .inl (hothers s' hs' hp' hne)
    · obtain ⟨hre, hmet⟩ := h.deliver hs hp w client (user.any fun u => w.sessionShowsAtTheMachine u.uid)
      refine ⟨?_, hmet⟩
      exact hre.quiet (hre.kept []) (Nat.le_succ _)
  · have hroom := h.room
    have hnext : d.reached [] (d.nextAfter []) = true := h.reached_next _ le_rfl (by rw [nextAfter]; omega)
    have hsettled : decision.admission = .existing → (d.find decision.session).isSome →
        d.reached [] decision.session = true := fun ha hsome => by
      obtain ⟨s, hfind⟩ := Option.isSome_iff_exists.mp hsome
      refine reached_iff.mpr (.inl fun hmem => hex ⟨ha, s, hfind, ?_⟩)
      obtain ⟨s', hs', hp', hid⟩ := mem_pendingIds.mp hmem
      rw [h.eq_of_id hs' hp' (mem_of_find hfind).1 ((mem_of_find hfind).2.trans hid.symm)]
      exact hp'
    obtain ⟨given, hgiven, hk⟩ := (h.kept []).place w trivial hnext user hsettled
    refine ⟨h.creates hk hgiven fun id hid => (by cases hid), fun s hs hp => .inl ?_⟩
    exact Reattaching.stays hk hs hp not_mem_nil

theorem Reattaching.handleAuthenticated (h : Reattaching bound (remaining + 1) d) (w : World) (client : Authenticated) :
    Reattaching bound remaining (d.handleAuthenticated w client) ∧
      ∀ s ∈ d.live, s.pending = true → Met w client s d (d.handleAuthenticated w client) := by
  have hrefuse : ∀ errorInfo reason, Reattaching bound remaining (d.refuse client errorInfo reason) ∧
      ∀ s ∈ d.live, s.pending = true → Met w client s d (d.refuse client errorInfo reason) := fun errorInfo reason =>
    have hk := (h.kept []).refuse client errorInfo reason
    ⟨h.quiet hk (Nat.le_succ _), fun s hs hp => .inl (Reattaching.stays hk hs hp not_mem_nil)⟩
  unfold Impl.handleAuthenticated
  dsimp only
  split_ifs
  · exact hrefuse _ _
  · exact hrefuse _ _
  · exact hrefuse _ _
  · exact h.place w client _ _

/-! ### An agent greets -/

/-- The session goes on waiting. -/
def StillWaits (s : Live) (d : Impl) : Prop :=
  ∃ s' ∈ d.live, s'.id = s.id ∧ s'.reattachDeadline = s.reattachDeadline ∧ s'.waiting = s.waiting

/-- The peer has greeted as the agent of the session. -/
def Greeted (peer : AgentPeer) (s : Live) (d : Impl) : Prop :=
  ∃ frame inbox version token link m, peer.inbox = frame :: inbox ∧
    decodeFromAgent frame = some (.hello version token) ∧ d.claims peer.uid token s = true ∧
    ({ expected := s.token } : AgentLink).receive frame = (link, some m)

theorem Reattaching.stillWaits (hk : Keeps (fun _ => True) (d.reached []) d given d') (hs : s ∈ d.live)
    (hp : s.pending = true) : StillWaits s d' := ⟨s, stays hk hs hp not_mem_nil, rfl, rfl, rfl⟩

/-- The agent of a session that waits has greeted. -/
theorem Reattaching.greeted (h : Reattaching bound remaining d) (hs : s ∈ d.live) (hp : s.pending = true)
    (w : World) (link : AgentLink) (inbox : List Frame) :
    Reattaching bound remaining (d.greeted w s.id link inbox) ∧
      ∀ s' ∈ d.live, s'.pending = true → s' ≠ s → s' ∈ (d.greeted w s.id link inbox).live := by
  have hT : d.reached [s.id] s.id = true := reached_iff.mpr (.inr (by simp))
  have hk := (h.kept [s.id]).greeted w hT link inbox
  have hmodify : Keeps (fun _ => True) (d.reached [s.id]) d [] (d.modify s.id (greet w link inbox)) := by
    refine (h.kept [s.id]).modify hT (fun _ => rfl) (fun _ _ _ => .inl trivial) fun s hs => ?_
    simp [Live.pending, greet] at hs
  have hpending := (hmodify.forwards.kept.afterGreet rfl).pending
  have hgone : s.id ∉ (d.greeted w s.id link inbox).pendingIds := fun hmem => by
    obtain ⟨s', hs', hp', hid⟩ := mem_pendingIds.mp (hpending.subset hmem)
    have : s' ∈ (d.modify s.id (greet w link inbox)).live.filter fun s' => s'.id == s.id :=
      mem_filter.mpr ⟨hs', by simp [hid]⟩
    rw [h.filter_modify hs hp (f := greet w link inbox) fun _ => rfl, mem_singleton] at this
    rw [this] at hp'
    cases hp'
  have hlen := hk.pending.length_le
  have hroom := h.room
  refine ⟨h.of_kept hk (fun id hid => ?_) le_rfl (fun id hid => by cases hid) (by rw [nextAfter]; omega),
    fun s' hs' hp' hne => stays hk hs' hp' fun hid => hne ?_⟩
  · rw [mem_singleton.mp hid]
    exact hgone
  · exact h.eq_of_id hs hp hs' (mem_singleton.mp hid)

theorem Reattaching.readUnclaimed (h : Reattaching bound remaining d) (w : World) (peer : AgentPeer) :
    Reattaching bound remaining (d.readUnclaimed w peer).1 ∧
      ∀ s ∈ d.live, s.pending = true → StillWaits s (d.readUnclaimed w peer).1 ∨ Greeted peer s d := by
  have hquiet : ∀ {d'}, Keeps (fun _ => True) (d.reached []) d [] d' → Reattaching bound remaining d' ∧
      ∀ s ∈ d.live, s.pending = true → StillWaits s d' ∨ Greeted peer s d := fun hk =>
    ⟨h.quiet hk le_rfl, fun s hs hp => .inl (stillWaits hk hs hp)⟩
  have hsettled : ∀ {s}, s ∈ d.live → ¬ s.pending = true → d.reached [] s.id = true := fun hs hp => by
    refine reached_iff.mpr (.inl fun hmem => hp ?_)
    obtain ⟨s', hs', hp', hid⟩ := mem_pendingIds.mp hmem
    rw [h.eq_of_id hs' hp' hs hid.symm]
    exact hp'
  unfold Impl.readUnclaimed
  split
  · exact hquiet (h.kept [])
  · exact hquiet (h.kept [])
  · next frame inbox _ hinbox =>
    split
    · next version token hdecode =>
      split
      · exact hquiet (h.kept [])
      · next s hfind =>
        have hs := mem_of_find?_eq_some hfind
        split
        · by_cases hp : s.pending = true
          · obtain ⟨hre, hmem, hothers⟩ := h.modify (f := fun s => { s with reattachToken := s.token }) hs hp
              (fun _ => rfl) (fun _ => rfl) fun _ => ⟨rfl, rfl, rfl, rfl⟩
            refine ⟨hre, fun s' hs' hp' => .inl ?_⟩
            by_cases hne : s' = s
            · rw [hne]
              exact ⟨_, hmem, rfl, rfl, rfl⟩
            · exact ⟨s', hothers s' hs' hp' hne, rfl, rfl, rfl⟩
          · exact hquiet ((h.kept []).write (hsettled hs hp) fun _ => ⟨rfl, rfl, rfl, rfl⟩)
        · next link m hreceive =>
          by_cases hp : s.pending = true
          · obtain ⟨hre, hothers⟩ := h.greeted hs hp w link inbox
            refine ⟨hre, fun s' hs' hp' => ?_⟩
            by_cases hne : s' = s
            · rw [hne]
              exact .inr ⟨frame, inbox, version, token, link, m, hinbox, hdecode, find?_some hfind, hreceive⟩
            · exact .inl ⟨s', hothers s' hs' hp' hne, rfl, rfl, rfl⟩
          · exact hquiet ((h.kept []).greeted w (hsettled hs hp) link inbox)
    · exact hquiet (h.kept [])

/-! ### The timers -/

/-! The records of one id, where it is not the one that is written to. -/

theorem filter_endSession (hn : n ≠ id) (d : Impl) (cause : Option Message) :
    ((d.endSession id cause).live.filter fun s => s.id == n) = d.live.filter fun s => s.id == n := by
  rw [(endSession_spec d id cause).live, filter_filter]
  refine filter_congr fun s _ => ?_
  by_cases hs : s.id = n
  · simp [hs, hn]
  · simp [hs]

theorem filter_startSession (hn : n ≠ d.registry.nextId) (w : World) (client : Authenticated) (account : Text)
    (user : Option Account) (attach ownShell : Bool) :
    ((d.startSession w client account user attach ownShell).live.filter fun s => s.id == n) =
      d.live.filter fun s => s.id == n := by
  unfold startSession
  dsimp only
  split
  · rfl
  · split_ifs
    · simp [create, hn.symm]
    · split
      · refine (filter_endSession hn _ none).trans ?_
        simp [create, hn.symm]
      · simp [create, hn.symm]

theorem filter_giveUp (hn : n ≠ id) (hnext : n ≠ d.registry.nextId) (w : World) :
    ((d.giveUp w id).live.filter fun s => s.id == n) = d.live.filter fun s => s.id == n := by
  unfold giveUp
  split
  · rfl
  · have hended : (((d.modify id fun s => { s with reattachDeadline := none, waiting := none }).endSession id
      none).live.filter fun s => s.id == n) = d.live.filter fun s => s.id == n :=
      (filter_endSession hn _ none).trans (filter_other_updateFirst
        (f := fun s => { s with reattachDeadline := none, waiting := none }) (fun _ => rfl) hn d.live)
    split
    · exact hended
    · refine (filter_startSession ?_ w _ _ _ _ _).trans hended
      rw [registry_endSession]
      exact hnext

theorem filter_endFound (hn : n ≠ id) (d : Impl) :
    ((d.endFound id).live.filter fun s => s.id == n) = d.live.filter fun s => s.id == n := by
  unfold endFound
  split_ifs
  · exact filter_endSession hn d none
  · rfl

theorem filter_foldl_endFound : ∀ {l : List ℕ} (d : Impl), n ∉ l →
    ((l.foldl (fun d id => d.endFound id) d).live.filter fun s => s.id == n) = d.live.filter fun s => s.id == n
  | [], _, _ => rfl
  | id :: l, d, hn => by
    rw [mem_cons, not_or] at hn
    exact (filter_foldl_endFound (d.endFound id) hn.2).trans (filter_endFound hn.1 d)

/-- Sessions are given up, and new ones are created for the clients. -/
theorem Reattaching.giveUps (h : Reattaching bound remaining d) (w : World) : ∀ (l : List ℕ) {d' : Impl}
    {given : List ℕ},
    (∀ id ∈ l, id ∈ more) → Keeps (fun _ => True) (d.reached more) d given d' →
    d.registry.nextId ≤ d.nextAfter given → (∀ id ∈ given, id < d.nextAfter given) →
    d.nextAfter given + l.length ≤ bound →
    ∃ given', Keeps (fun _ => True) (d.reached more) d given' (l.foldl (fun d id => d.giveUp w id) d') ∧
      d.nextAfter given ≤ d.nextAfter given' ∧ (∀ id ∈ given', id < d.nextAfter given') ∧
      d.nextAfter given' ≤ d.nextAfter given + l.length ∧
      ∀ n < d.nextAfter given, n ∉ l →
        ((l.foldl (fun d id => d.giveUp w id) d').live.filter fun s => s.id == n) = d'.live.filter fun s => s.id == n
  | [], _, given, _, hk, _, hgiven, _ => ⟨given, hk, le_rfl, hgiven, le_rfl, fun _ _ _ => rfl⟩
  | id :: l, d', given, hl, hk, hnext, hgiven, hroom => by
    rw [length_cons] at hroom
    have hT : d.reached more id = true := reached_iff.mpr (.inr (hl id mem_cons_self))
    obtain ⟨given₁, h₁, hk₁⟩ := hk.giveUp w hT (h.reached_next more hnext (by omega))
    have hb := h.bound
    have hstep : d.nextAfter given ≤ d.nextAfter given₁ ∧ d.nextAfter given₁ ≤ d.nextAfter given + 1 ∧
        ∀ id ∈ given₁, id < d.nextAfter given₁ := by
      rcases h₁ with rfl | rfl
      · exact ⟨le_rfl, Nat.le_succ _, hgiven⟩
      · have heq : d.nextAfter (d.nextAfter given :: given) = d.nextAfter given + 1 := Nat.mod_eq_of_lt (by omega)
        refine ⟨by omega, by omega, fun i hi => ?_⟩
        rw [heq]
        rcases mem_cons.mp hi with rfl | hi
        · exact Nat.lt_succ_self _
        · exact (hgiven i hi).trans (Nat.lt_succ_self _)
    obtain ⟨given₂, hk₂, hle, hg₂, hub, hsame⟩ := giveUps h w l (fun i hi => hl i (mem_cons_of_mem _ hi)) hk₁
      (by omega) hstep.2.2 (by omega)
    refine ⟨given₂, hk₂, by omega, hg₂, by rw [length_cons]; omega, fun n hn hnl => ?_⟩
    rw [mem_cons, not_or] at hnl
    refine (hsame n (by omega) hnl.2).trans (filter_giveUp hnl.1 ?_ w)
    rw [hk.next]
    omega

theorem giveUp_grows (h : Forwards (fun _ => True) d) (w : World) (id : ℕ) :
    (d.giveUp w id).pendingIds.Sublist d.pendingIds ∧ d.log <+: (d.giveUp w id).log := by
  obtain ⟨_, -, hk⟩ : ∃ given', _ ∧ Keeps (fun _ => True) (fun _ => true) d given' (d.giveUp w id) :=
    h.kept.giveUp w rfl rfl
  exact ⟨hk.pending, hk.log⟩

/-- A session that is given up does not wait any more. -/
theorem not_mem_pendingIds_giveUp (h : Forwards (fun _ => True) d) (w : World) (id : ℕ) :
    id ∉ (d.giveUp w id).pendingIds := by
  unfold giveUp
  split
  · next hnone =>
    intro hmem
    obtain ⟨s, hs, -, hid⟩ := mem_pendingIds.mp hmem
    have := find_isSome_iff.mpr ⟨s, hs, hid⟩
    rw [hnone] at this
    cases this
  · have hm : Keeps (fun _ => True) (fun _ => true) d []
        ((d.modify id fun s => { s with reattachDeadline := none, waiting := none }).endSession id none) := by
      refine Keeps.endSession ?_ rfl none
      refine h.kept.modify rfl (fun _ => rfl) (fun _ _ _ => .inl trivial) fun s hs => ?_
      simp [Live.pending] at hs
    split
    · exact not_mem_pendingIds_endSession _ _ _
    · intro hmem
      refine not_mem_pendingIds_endSession _ _ _ ((hm.forwards.kept.startSession w ?_ rfl _ _ _ _).pending.subset hmem)
      trivial

theorem giveUps_grows (w : World) : ∀ (l : List ℕ) {d : Impl}, Forwards (fun _ => True) d →
    (l.foldl (fun d id => d.giveUp w id) d).pendingIds.Sublist d.pendingIds ∧
      d.log <+: (l.foldl (fun d id => d.giveUp w id) d).log ∧
      ∀ id ∈ l, id ∉ (l.foldl (fun d id => d.giveUp w id) d).pendingIds
  | [], _, _ => ⟨.refl _, prefix_refl _, fun _ hid => by cases hid⟩
  | id :: l, d, h => by
    obtain ⟨hsub, hlog, hgone⟩ := giveUps_grows w l (h.giveUp w id)
    obtain ⟨hsub₁, hlog₁⟩ := giveUp_grows h w id
    refine ⟨hsub.trans hsub₁, hlog₁.trans hlog, fun i hi hmem => ?_⟩
    rcases mem_cons.mp hi with rfl | hi
    · exact not_mem_pendingIds_giveUp h w i (hsub.subset hmem)
    · exact hgone i hi hmem

theorem lost_sublist (d : Impl) (now : Time) : (d.lost now).Sublist d.pendingIds := by
  refine List.Sublist.map _ (monotone_filter_right _ fun s hs => ?_)
  rw [Option.any_eq_true] at hs
  obtain ⟨t, ht, -⟩ := hs
  simp [Live.pending, ht]

theorem Keeps.find_of_initial (h : Reattaching bound remaining d)
    (hk : Keeps (fun _ => True) (d.reached more) d given d')
    (hs : s ∈ d.live) (hp : s.pending = true) (hid : s.id ∉ more) : d'.find s.id = some s := by
  have hT : d.reached more s.id = false := reached_eq_false.mpr ⟨mem_pendingIds.mpr ⟨s, hs, hp, rfl⟩, hid⟩
  have hfind : d'.find s.id = (d'.live.filter fun s' => s'.id == s.id).head? := head?_filter.symm
  rw [hfind, hk.filter_id hT, h.alone s hs hp, head?_cons]

/-- A record that has no agent yet is not silent. -/
theorem filter_endSilent (h : (d.live.filter fun s' => s'.id == s.id) = [s]) (hlink : s.link = none)
    (w : World) : ((d.endSilent w).live.filter fun s' => s'.id == s.id) = [s] := by
  refine (filter_foldl_endFound d fun hmem => ?_).trans h
  obtain ⟨s', hs', hid⟩ := mem_map.mp hmem
  obtain ⟨hs', hsilent⟩ := mem_filter.mp hs'
  have : s' ∈ d.live.filter fun s' => s'.id == s.id := mem_filter.mpr ⟨hs', by simp [hid]⟩
  rw [h, mem_singleton] at this
  simp [this, hlink] at hsilent

/-- A record that is new is not overdue. -/
theorem filter_endOverdue (h : (d.live.filter fun s' => s'.id == s.id) = [s]) {w : World}
    (hprocess : s.process.any w.exited = false) (hterm : s.terminateSent = none)
    (hyoung : w.now ≤ s.created + startTimeout) :
    ((d.endOverdue w).live.filter fun s' => s'.id == s.id) = [s] := by
  refine (filter_foldl_endFound (d.reap w) fun hmem => ?_).trans ?_
  · obtain ⟨s', hs', hid⟩ := mem_flatMap.mp hmem
    have hid' : s'.id = s.id := by
      rcases mem_append.mp hid with hid | hid
      · split_ifs at hid <;> simp at hid
        exact hid.symm
      · split_ifs at hid <;> simp at hid
        exact hid.symm
    have : s' ∈ d.live.filter fun s' => s'.id == s.id := mem_filter.mpr ⟨hs', by simp [hid']⟩
    rw [h, mem_singleton] at this
    rw [this, if_neg (by simp [hprocess]), if_neg (by simp [hterm, hyoung])] at hid
    cases hid
  · have hmap : ((d.reap w).live.filter fun s' => s'.id == s.id) =
        (d.live.filter fun s' => s'.id == s.id).map fun s => if s.process.any w.exited then { s with process := none }
          else s := by
      rw [reap, filter_map]
      refine congrArg _ (filter_congr fun s' _ => ?_)
      rw [Function.comp_apply, (reap_same w s').1]
    rw [hmap, h]
    simp [hprocess]

/-- The client of a session that is given up is passed to `startSession`. -/
theorem giveUp_started (h : Forwards (fun _ => True) d) (w : World) (hfind : d.find s.id = some s)
    {client : Authenticated} (hw : s.waiting = some client) (hnew : ∀ s₀ ∈ d.live, s₀.id ≠ d.registry.nextId)
    (hnext : d.registry.nextId + 1 < 2 ^ 32) :
    (d.giveUp w s.id).registry.nextId = d.registry.nextId + 1 ∧
      (.refused client.id errinfoOutOfMemory (text "no randomness for a session token") ∈ (d.giveUp w s.id).log ∨
        (∀ process, w.started d.registry.nextId = some process → w.exited process = true) ∨
        ∃ s', Opens w client d.registry.nextId s' ∧ s'.process.any w.exited = false ∧
          ((d.giveUp w s.id).live.filter fun s => s.id == d.registry.nextId) = [s']) := by
  generalize hended : (d.modify s.id fun s => { s with reattachDeadline := none, waiting := none }).endSession s.id
    none = e
  have hke : Keeps (fun _ => True) (fun _ => true) d [] e := by
    rw [← hended]
    refine Keeps.endSession ?_ rfl none
    refine h.kept.modify rfl (fun _ => rfl) (fun _ _ _ => .inl trivial) fun s hs => ?_
    simp [Live.pending] at hs
  have hgive : d.giveUp w s.id = e.startSession w client s.account s.user ((d.registry.find s.id).any (·.attached))
    false := by
    unfold giveUp
    rw [hfind]
    dsimp only
    rw [hw, hended]
    rfl
  have hid : e.registry.nextId = d.registry.nextId := hke.next
  have hnone : (e.live.filter fun s => s.id == d.registry.nextId) = [] := by
    rw [filter_eq_nil_iff]
    intro s' hs' heq
    rcases hke.ids s' hs' with ⟨s₀, hs₀, hid₀⟩ | hs'
    · exact hnew s₀ hs₀ (hid₀.trans (by simpa using heq))
    · cases hs'
  rw [hgive]
  refine ⟨?_, ?_⟩
  · rw [(hke.forwards.kept.startSession w (P := fun _ => True) trivial rfl _ _ _ _).next, nextAfter, hid]
    exact Nat.mod_eq_of_lt hnext
  · rcases startSession_cases e w client s.account s.user ((d.registry.find s.id).any (·.attached)) false with
      hr | hf | ⟨s', hs', hlive⟩
    · exact .inl hr
    · refine .inr (.inl fun process hprocess => ?_)
      rw [← hid, hf] at hprocess
      cases hprocess
    · rw [hid] at hs'
      by_cases hexit : s'.process.any w.exited = true
      · obtain ⟨process, hsome, hexited⟩ := (Option.any_eq_true ..).mp hexit
        refine .inr (.inl fun process' hprocess => ?_)
        rw [hs'.process process hsome] at hprocess
        cases hprocess
        exact hexited
      · refine .inr (.inr ⟨s', hs', Bool.eq_false_iff.mpr hexit, ?_⟩)
        rw [hlive, filter_append, hnone]
        simp [hs'.id]

/-- **A client that waited in vain** is passed to `startSession`: it waits in
the new session when the tick is over, unless that one could not be started. -/
theorem Reattaching.lost_started (h : Reattaching bound remaining d) (w : World) (hs : s ∈ d.live)
    (hp : s.pending = true) (hlost : s.id ∈ d.lost w.now) {client : Authenticated} (hw : s.waiting = some client) :
    Started w client d.registry.nextId (((d.giveUpLost w).endSilent w).endOverdue w) := by
  obtain ⟨pre, post, hsplit⟩ := append_of_mem hlost
  have hnodup : (d.lost w.now).Nodup := (lost_sublist d w.now).nodup h.nodup
  have hlen := (lost_sublist d w.now).length_le
  have hroom := h.room
  have hbound := h.bound
  rw [hsplit] at hnodup hlen
  rw [length_append, length_cons] at hlen
  have hpre : s.id ∉ pre := fun hm => by
    simp only [nodup_append, mem_cons] at hnodup
    exact hnodup.2.2 s.id hm s.id (.inl rfl) rfl
  have hfresh : ∀ {n}, d.registry.nextId ≤ n → n < bound → ∀ s₀ ∈ d.live, s₀.id ≠ n := fun h₁ h₂ s₀ hs₀ => by
    have := h.apart s₀ hs₀
    omega
  -- Up to its turn the record is as it was.
  obtain ⟨given₁, hk₁, hle₁, hg₁, hub₁, -⟩ := h.giveUps w pre (fun _ hi => hi) (h.kept pre) le_rfl
    (fun _ hi => by cases hi) (by rw [nextAfter]; omega)
  rw [nextAfter] at hle₁ hub₁
  have hfind := Keeps.find_of_initial h hk₁ hs hp hpre
  obtain ⟨given₂, hk₂, hle₂, hg₂, hub₂, -⟩ := h.giveUps w (pre ++ [s.id])
    (fun i hi => by rw [hsplit]; exact mem_append.mpr ((mem_append.mp hi).imp id fun hi => by simp_all))
    (h.kept (d.lost w.now)) le_rfl (fun _ hi => by cases hi)
    (by rw [nextAfter, length_append, length_singleton]; omega)
  rw [foldl_append, foldl_cons, foldl_nil] at hk₂
  rw [nextAfter, length_append, length_singleton] at hub₂
  obtain ⟨given₃, hk₃, hle₃, -, -, hsame⟩ := h.giveUps w post
    (fun i hi => by rw [hsplit]; exact mem_append_right _ (mem_cons_of_mem _ hi)) hk₂ hle₂ hg₂ (by omega)
  have hall : d.giveUpLost w = post.foldl (fun d id => d.giveUp w id)
      ((pre.foldl (fun d id => d.giveUp w id) d).giveUp w s.id) := by
    rw [giveUpLost, hsplit, foldl_append, foldl_cons]
  rw [← hall] at hk₃ hsame
  generalize hd₁ : pre.foldl (fun d id => d.giveUp w id) d = d₁ at hk₁ hfind hk₂ hsame hall
  have hid : d₁.registry.nextId = d.nextAfter given₁ := hk₁.next
  have hnew : ∀ s₀ ∈ d₁.live, s₀.id ≠ d₁.registry.nextId := fun s₀ hs₀ heq => by
    rw [hid] at heq
    rcases hk₁.ids s₀ hs₀ with ⟨s', hs', hs'id⟩ | hgiven
    · exact hfresh hle₁ (by omega) s' hs' (hs'id.trans heq)
    · exact absurd (hg₁ _ hgiven) (by omega)
  obtain ⟨hnext, hcases⟩ := giveUp_started hk₁.forwards w hfind hw hnew (by rw [hid]; omega)
  -- What comes after adds to the history and to the ids.
  have hrest := (hk₃.forwards.kept.endSilent (bystanders_all _) w).forwards.kept.endOverdue (spared_all w _)
  have hsilent := hk₃.forwards.kept.endSilent (bystanders_all _) w
  have hfinal : (((d.giveUpLost w).endSilent w).endOverdue w).registry.nextId = d.nextAfter given₃ :=
    (hrest.next.trans hsilent.next).trans hk₃.next
  have hgiven₂ : d.nextAfter given₂ = d₁.registry.nextId + 1 := hk₂.next.symm.trans hnext
  rcases hcases with hr | hf | ⟨s', hopens, hexit, hfilter⟩
  · refine .refused (hrest.log.subset (hsilent.log.subset ?_))
    rw [hall]
    exact (giveUps_grows w post hk₂.forwards).2.1.subset hr
  · exact .failed d₁.registry.nextId ⟨by omega, by omega⟩ hf
  · have hn : s'.id < d.nextAfter given₂ := by
      rw [hopens.id]
      omega
    have hpost : s'.id ∉ post := fun hm => by
      have hmem : s'.id ∈ d.lost w.now := by
        rw [hsplit]
        exact mem_append_right _ (mem_cons_of_mem _ hm)
      obtain ⟨s₀, hs₀, hs₀id⟩ := mem_map.mp hmem
      refine hfresh (n := s'.id) ?_ ?_ s₀ (mem_of_mem_filter hs₀) hs₀id
      · rw [hopens.id]
        omega
      · omega
    rw [← hopens.id] at hfilter
    have h₃ := (hsame s'.id hn hpost).trans hfilter
    have h₅ := filter_endOverdue (filter_endSilent h₃ hopens.link w) hexit hopens.terminateSent
      (by rw [hopens.created]; exact Nat.le_add_right _ _)
    refine .waits s' ?_ (by rw [hopens.id]; omega) hopens.waiting
    have hmem : s' ∈ (((d.giveUpLost w).endSilent w).endOverdue w).live.filter fun s => s.id == s'.id := by
      rw [h₅]
      exact mem_singleton_self s'
    exact mem_of_mem_filter hmem

/-- **The timers**: the sessions whose deadline has passed are given up, and
the others stay if they are young enough. -/
theorem Reattaching.timers (h : Reattaching bound remaining d) (w : World)
    (hyoung : ∀ s ∈ d.live, s.pending = true → s.id ∉ d.lost w.now → w.now ≤ s.created + startTimeout) :
    Reattaching bound remaining (((d.giveUpLost w).endSilent w).endOverdue w) ∧
      ∀ s ∈ d.live, s.pending = true → s.id ∉ d.lost w.now → s ∈
        (((d.giveUpLost w).endSilent w).endOverdue w).live := by
  have hroom := h.room
  have hlen := (lost_sublist d w.now).length_le
  have hspared : Spared (d.reached (d.lost w.now)) w d := by
    refine ⟨fun s hs hT => ?_, fun s hs hT => ?_, fun s hs hT => ?_⟩
    · rw [(h.idle s hs (h.pending_of_reached hs hT).1).2.2.1]
      rfl
    · exact (h.idle s hs (h.pending_of_reached hs hT).1).2.2.2
    · exact hyoung s hs (h.pending_of_reached hs hT).1 (h.pending_of_reached hs hT).2
  obtain ⟨given, hk, hle, hgiven, hub, -⟩ := h.giveUps w (d.lost w.now) (fun _ hi => hi) (h.kept (d.lost w.now)) le_rfl
    (fun _ hi => by cases hi) (by rw [nextAfter]; omega)
  have hlost := giveUps_grows w (d.lost w.now) (h.kept []).forwards
  have hend := (hk.endSilent (h.bystanders _) w).endOverdue hspared
  have hsilent := hk.forwards.kept.endSilent (bystanders_all _) w
  have hover := hsilent.forwards.kept.endOverdue (spared_all w _)
  have hgone : ∀ id ∈ d.lost w.now, id ∉ (((d.giveUpLost w).endSilent w).endOverdue w).pendingIds :=
    fun id hid hmem => hlost.2.2 id hid (hsilent.pending.subset (hover.pending.subset hmem))
  have hcount : (((d.giveUpLost w).endSilent w).endOverdue w).pendingIds.length + (d.lost w.now).length ≤
      d.pendingIds.length := by
    rw [← length_append]
    refine List.Subperm.length_le (subperm_of_subset ?_ ?_)
    · refine List.Nodup.append (hend.pending.nodup h.nodup) ((lost_sublist d w.now).nodup h.nodup) ?_
      exact fun id hid hl => hgone id hl hid
    · exact append_subset.mpr ⟨hend.pending.subset, (lost_sublist d w.now).subset⟩
  rw [nextAfter] at hle hub
  exact ⟨h.of_kept hend hgone hle hgiven (by omega), fun s hs hp hl => stays hend hs hp hl⟩

/-- Given up at its deadline, and the client that waited is not dropped. -/
def GivenUp (w : World) (s : Live) (d d' : Impl) : Prop :=
  (∃ t, s.reattachDeadline = some t ∧ t ≤ w.now) ∧
    ∀ client, s.waiting = some client → Started w client d.registry.nextId d'

theorem Reattaching.tick (h : Reattaching bound remaining d) (w : World)
    (hyoung : ∀ s ∈ d.live, ∀ t, s.reattachDeadline = some t → w.now < t → w.now ≤ s.created + startTimeout) :
    Reattaching bound remaining (d.tick w) ∧
      ∀ s ∈ d.live, s.pending = true → s ∈ (d.tick w).live ∨ GivenUp w s d (d.tick w) := by
  have hk := (((((h.kept []).askTheSeat (h.bystanders []) w).terminateRequested w).expire w.now).settleLoop w
    (((d.askTheSeat w).terminateRequested w).expire w.now).resolutions.length).applyPolicies w
  generalize hmid : (settleLoop w (((d.askTheSeat w).terminateRequested w).expire w.now).resolutions.length
    (((d.askTheSeat w).terminateRequested w).expire w.now)).applyPolicies w = mid at hk
  have htick : d.tick w = ((mid.giveUpLost w).endSilent w).endOverdue w := by
    rw [← hmid]
    rfl
  have hre := h.quiet hk le_rfl
  have hold : ∀ s ∈ mid.live, s.pending = true → s ∈ d.live := fun s hs hp =>
    hk.mem_initial hs (reached_eq_false.mpr ⟨hk.pending.subset (mem_pendingIds.mpr ⟨s, hs, hp, rfl⟩), not_mem_nil⟩)
  have hdue : ∀ s ∈ mid.live, s.pending = true →
      (s.id ∈ mid.lost w.now ↔ ∃ t, s.reattachDeadline = some t ∧ t ≤ w.now) := fun s hs hp => by
    constructor
    · intro hl
      obtain ⟨s₀, hs₀, hid⟩ := mem_map.mp hl
      obtain ⟨hs₀, hdue⟩ := mem_filter.mp hs₀
      rw [hre.eq_of_id hs hp hs₀ hid] at hdue
      simpa [Option.any_eq_true] using hdue
    · rintro ⟨t, ht, hle⟩
      exact mem_map.mpr ⟨s, mem_filter.mpr ⟨hs, by simp [ht, hle]⟩, rfl⟩
  obtain ⟨htimers, hstay⟩ := hre.timers w fun s hs hp hl => by
    obtain ⟨t, ht⟩ := Option.isSome_iff_exists.mp hp
    refine hyoung s (hold s hs hp) t ht ?_
    by_contra hle
    exact hl ((hdue s hs hp).mpr ⟨t, ht, not_lt.mp hle⟩)
  rw [htick]
  refine ⟨htimers, fun s hs hp => ?_⟩
  have hs' : s ∈ mid.live := stays hk hs hp not_mem_nil
  by_cases hl : s.id ∈ mid.lost w.now
  · refine .inr ⟨(hdue s hs' hp).mp hl, fun client hw => ?_⟩
    have hnext : mid.registry.nextId = d.registry.nextId := hk.next
    rw [← hnext]
    exact hre.lost_started w hs' hp hl hw
  · exact .inl (hstay s hs' hp hl)

/-! ### Runs -/

/-- What becomes of a session that waits in one step: it goes on waiting, its
agent greets, a client joins it, or its time has come. -/
def Waits (w : World) (e : Event) (s : Live) (d d' : Impl) : Prop :=
  StillWaits s d' ∨
  (∃ index frames isOpen peer, e = .readUnclaimed index frames isOpen ∧ d.unclaimed[index]? = some peer ∧
    Greeted { peer with inbox := peer.inbox ++ frames } s d) ∨
  (∃ client, e = .authenticated client ∧ joined w client s ∈ d'.live) ∨
  e = .tick ∧ GivenUp w s d d'

/-- The steps of the runs here: nobody asks for an end, reports are of launches
of this farlandd, and no tick comes between the start timeout and the deadline
of a session that waits. -/
def Permitted (d : Impl) (w : World) : Event → Prop
  | .launched launched => launched.session ∉ d.pendingIds
  | .tick => ∀ s ∈ d.live, ∀ t, s.reattachDeadline = some t → w.now < t → w.now ≤ s.created + startTimeout
  | .requestTerminate _ | .shutdown | .close => False
  | _ => True

/-- The clients that come in a run. -/
def arrivals (es : List (World × Event)) : ℕ := es.countP fun e => match e.2 with
  | .authenticated _ => true
  | _ => false

/-- **One step.** -/
theorem Reattaching.step (h : Reattaching bound (remaining + arrivals [(w, e)]) d) (hp : Permitted d w e) :
    Reattaching bound remaining (d.step w e) ∧ ∀ s ∈ d.live, s.pending = true → Waits w e s d (d.step w e) ∨
        ∃ client, e = .authenticated client ∧ Replaced w client s d (d.step w e) := by
  have hquiet : ∀ {d'}, Keeps (fun _ => True) (d.reached []) d [] d' → Reattaching bound remaining d' ∧
      ∀ s ∈ d.live, s.pending = true → Waits w e s d d' ∨ ∃ client, e = .authenticated client ∧
        Replaced w client s d d' :=
    fun hk => ⟨h.quiet hk (Nat.le_add_right _ _), fun s hs hp => .inl (.inl (stillWaits hk hs hp))⟩
  have hsame : ∀ {d' : Impl}, d'.live = d.live → d'.registry = d.registry → d'.consent = d.consent →
      d'.resolutions = d.resolutions → d'.terminations = d.terminations → ∀ es, d'.log = d.log ++ es →
      (∀ e ∈ es, e.Hands fun _ => True) → Keeps (fun _ => True) (d.reached []) d [] d' :=
    fun h₁ h₂ h₃ h₄ h₅ es h₆ h₇ =>
      (h.kept []).step h₁ h₂ (fun _ hp => .inl (h₃ ▸ hp)) (fun _ hr => .inl (h₄ ▸ hr)) h₅ es h₆ h₇
  cases e with
  | acceptClient =>
    by_cases hfull : maxPreauthClients ≤ d.clientThreads
    · have heq : d.step w .acceptClient = d := if_pos hfull
      rw [heq]
      exact hquiet (h.kept [])
    · have heq : d.step w .acceptClient = { d with
          clientThreads := d.clientThreads + 1
          nextConnection := (d.nextConnection + 1) % 2 ^ 64
          authenticating := d.authenticating ++ [d.nextConnection]
          log := d.log ++ [.accepted d.nextConnection] } := if_neg hfull
      rw [heq]
      exact hquiet (hsame rfl rfl rfl rfl rfl [.accepted d.nextConnection] rfl (by simp [Entry.Hands]))
  | acceptAgent uid => exact hquiet (hsame rfl rfl rfl rfl rfl [] (by simp [Impl.step, acceptAgent]) (by simp))
  | authenticated client =>
    by_cases hmem : client.id ∈ d.authenticating
    · have heq : d.step w (.authenticated client) =
          Impl.handleAuthenticated { d with authenticating := d.authenticating.erase client.id } w client := if_pos hmem
      have herase : Reattaching bound (remaining + 1)
          ({ d with authenticating := d.authenticating.erase client.id } : Impl) :=
        h.quiet (hsame rfl rfl rfl rfl rfl [] (by simp) (by simp)) le_rfl
      obtain ⟨hre, hmet⟩ := herase.handleAuthenticated w client
      rw [heq]
      refine ⟨hre, fun s hs hpend => ?_⟩
      rcases hmet s hs hpend with hstay | hjoin | hgone
      · exact .inl (.inl ⟨s, hstay, rfl, rfl, rfl⟩)
      · exact .inl (.inr (.inr (.inl ⟨client, rfl, hjoin⟩)))
      · exact .inr ⟨client, rfl, ⟨hgone.named, hgone.gone, hgone.started⟩⟩
    · have heq : d.step w (.authenticated client) = d := if_neg hmem
      rw [heq]
      exact hquiet (h.kept [])
  | dropped connection | threadEnded | awaited cookie =>
    exact hquiet (hsame rfl rfl rfl rfl rfl [] (by simp [Impl.step]) (by simp))
  | launched launched => exact hquiet ((h.kept []).handleLaunched (reached_iff.mpr (.inl hp)))
  | readUnclaimed index frames isOpen =>
    cases hpeer : d.unclaimed[index]? with
    | none =>
      have heq : d.step w (.readUnclaimed index frames isOpen) = d := by
        simp only [Impl.step, hpeer]
      rw [heq]
      exact hquiet (h.kept [])
    | some peer =>
      generalize hp' : ({ peer with inbox := peer.inbox ++ frames } : AgentPeer) = peer'
      obtain ⟨hre, hread⟩ := h.readUnclaimed w peer'
      have hstep : (d.step w (.readUnclaimed index frames isOpen) =
        { d with unclaimed := d.unclaimed.eraseIdx index }) ∨
          ∃ unclaimed, d.step w (.readUnclaimed index frames isOpen) =
            { (d.readUnclaimed w peer').1 with unclaimed := unclaimed } := by
        simp only [Impl.step, hpeer, hp']
        split_ifs
        · exact .inl rfl
        · exact .inr ⟨_, rfl⟩
        · exact .inr ⟨_, rfl⟩
      rcases hstep with heq | ⟨unclaimed, heq⟩
      · rw [heq]
        exact hquiet (hsame rfl rfl rfl rfl rfl [] (by simp) (by simp))
      · rw [heq]
        have hre' : Reattaching bound remaining ({ (d.readUnclaimed w peer').1 with unclaimed := unclaimed } : Impl) :=
          ⟨hre.alone, hre.idle, hre.handed, hre.prompts, hre.resolutions, hre.terminations, hre.running, hre.nodup,
            hre.apart, hre.room, hre.bound⟩
        refine ⟨hre', fun s hs hpend => .inl ?_⟩
        rcases hread s hs hpend with hstay | hgreeted
        · exact .inl hstay
        · refine .inr (.inl ⟨index, frames, isOpen, peer, rfl, hpeer, ?_⟩)
          rw [hp']
          exact hgreeted
  | readAgent session frames isOpen => exact hquiet ((h.kept []).readAgent (h.bystanders []) w session frames isOpen)
  | tick =>
    obtain ⟨hre, hfate⟩ := h.tick w hp
    refine ⟨hre, fun s hs hpend => .inl ?_⟩
    rcases hfate s hs hpend with hstay | hgiven
    · exact .inl ⟨s, hstay, rfl, rfl, rfl⟩
    · exact .inr (.inr (.inr ⟨rfl, hgiven⟩))
  | login account =>
    refine hquiet (hsame rfl rfl rfl rfl rfl _ rfl fun e he => ?_)
    obtain ⟨cookie, -, rfl⟩ := Option.map_eq_some_iff.mp (Option.mem_toList.mp he)
    trivial
  | requestTerminate session | shutdown | close => exact absurd hp id

theorem arrivals_cons (e : World × Event) (es : List (World × Event)) :
    arrivals (e :: es) = arrivals es + arrivals [e] := by
  simp [arrivals, countP_cons]

/-- Every step of the run is permitted. -/
def Permits (d : Impl) : List (World × Event) → Prop
  | [] => True
  | e :: es => Permitted d e.1 e.2 ∧ Permits (d.step e.1 e.2) es

/-- A run, up to one of its steps. -/
theorem Reattaching.run {post : List (World × Event)} : ∀ (pre : List (World × Event)) {d : Impl} {remaining : ℕ},
    Reattaching bound (remaining + arrivals (pre ++ (w, e) :: post)) d → Permits d (pre ++ (w, e) :: post) →
      ∃ remaining', Reattaching bound (remaining' + arrivals [(w, e)]) (d.run pre) ∧ Permitted (d.run pre) w e
  | [], d, remaining, h, hp => by
    refine ⟨remaining + arrivals post, ?_, hp.1⟩
    rw [Nat.add_assoc, ← arrivals_cons]
    exact h
  | e₀ :: pre, d, remaining, h, hp => by
    rw [cons_append, arrivals_cons, ← Nat.add_assoc] at h
    exact Reattaching.run pre (h.step hp.1).1 hp.2

/-! ### The first state -/

/-- What `recoverSessions` has read so far. -/
structure Recovers (w : World) (table : List (StoredSession × Option ℕ)) (d : Impl) : Prop where
  live : ∀ s ∈ d.live, ∃ e ∈ table, s = recovered w e.1 e.2
  ids : (d.live.map (·.id)).Sublist (table.map (·.1.id))
  starting : ∀ s ∈ d.registry.sessions, s.state = .starting ∧ s.id ∈ table.map (·.1.id)
  next : ∀ s ∈ d.live, (s.id + 1) % 2 ^ 32 ≤ d.registry.nextId
  first : 1 ≤ d.registry.nextId
  terminations : d.terminations = []

variable {table : List (StoredSession × Option ℕ)}

theorem Recovers.read {w : World} {d : Impl} (h : Recovers w table d) {e : StoredSession × Option ℕ}
    (hnew : e.1.id ∉ table.map (·.1.id)) : Recovers w (table ++ [e])
      (if (w.lookupAccount e.1.account).any fun u => u.uid ≠ e.1.uid then d
      else
        { d with
          registry := d.registry.restore e.1.id e.1.account e.1.attached w.now
          live := d.live ++ [recovered w e.1 e.2] }) := by
  have hlive : ∀ s ∈ d.live, ∃ e' ∈ table ++ [e], s = recovered w e'.1 e'.2 := fun s hs =>
    (h.live s hs).imp fun _ hm => ⟨mem_append_left _ hm.1, hm.2⟩
  have hold : ∀ s ∈ d.registry.sessions, s.state = .starting ∧ s.id ∈ (table ++ [e]).map (·.1.id) := fun s hs => by
    rw [map_append]
    exact (h.starting s hs).imp_right (mem_append_left _)
  split_ifs
  · refine ⟨hlive, ?_, hold, h.next, h.first, h.terminations⟩
    rw [map_append]
    exact h.ids.trans (sublist_append_left _ _)
  have hnone : d.registry.find e.1.id = none := by
    rw [SessionRegistry.find, find?_eq_none]
    intro s hs heq
    refine hnew ?_
    rw [← beq_iff_eq.mp heq]
    exact (h.starting s hs).2
  have hmono : d.registry.nextId ≤ (d.registry.restore e.1.id e.1.account e.1.attached w.now).nextId := by
    unfold SessionRegistry.restore
    split_ifs
    · exact le_rfl
    · exact Nat.le_max_left _ _
  refine ⟨fun s hs => ?_, ?_, fun s hs => ?_, fun s hs => ?_, h.first.trans hmono, h.terminations⟩
  · rcases mem_append.mp hs with hs | hs
    · exact hlive s hs
    · exact ⟨e, mem_append_right _ (mem_singleton_self e), mem_singleton.mp hs⟩
  · rw [map_append, map_append]
    exact h.ids.append (.refl _)
  · unfold SessionRegistry.restore at hs
    split_ifs at hs
    · exact hold s hs
    · rcases mem_append.mp hs with hs | hs
      · exact hold s hs
      · rw [mem_singleton.mp hs]
        simp
  · rcases mem_append.mp hs with hs | hs
    · exact (h.next s hs).trans hmono
    · rw [mem_singleton.mp hs]
      dsimp only [recovered]
      unfold SessionRegistry.restore
      by_cases hzero : e.1.id = 0
      · rw [hzero]
        exact h.first
      · rw [if_neg (by simp [hzero, hnone])]
        exact Nat.le_max_right _ _

theorem recoverSessions_recovers (w : World) : ∀ (table done : List (StoredSession × Option ℕ)) {d : Impl},
    Recovers w done d → ((done ++ table).map (·.1.id)).Nodup → Recovers w (done ++ table) (d.recoverSessions w table)
  | [], done, d, h, _ => by
    rw [append_nil]
    exact h
  | e :: table, done, d, h, hnodup => by
    have hnew : e.1.id ∉ done.map (·.1.id) := fun hm => by
      rw [map_append, map_cons, nodup_append] at hnodup
      exact hnodup.2.2 _ hm _ mem_cons_self rfl
    have hread := h.read hnew
    rw [append_cons] at hnodup ⊢
    exact recoverSessions_recovers w table (done ++ [e]) hread hnodup

theorem filter_eq_singleton : ∀ {l : List Live}, (l.map (·.id)).Nodup → s ∈ l → (l.filter fun s' => s'.id == s.id) = [s]
  | [], _, hs => by cases hs
  | s' :: l, hn, hs => by
    rw [map_cons, nodup_cons] at hn
    rcases mem_cons.mp hs with rfl | hs
    · rw [filter_cons_of_pos (by simp), filter_eq_nil_iff.mpr]
      intro s' hs' heq
      exact hn.1 (mem_map.mpr ⟨s', hs', by simpa using heq⟩)
    · rw [filter_cons_of_neg, filter_eq_singleton hn.2 hs]
      intro heq
      exact hn.1 (mem_map.mpr ⟨s, hs, by simpa using Eq.symm (beq_iff_eq.mp heq)⟩)

theorem start_reattaching (options : Options) (w : World) (hids : (table.map (·.1.id)).Nodup)
    (h32 : ∀ e ∈ table, e.1.id < 2 ^ 32)
    (hroom : (start options w table).registry.nextId + table.length + remaining < 2 ^ 32) :
    Reattaching (2 ^ 32 - 1) remaining (start options w table) ∧
      ∀ s ∈ (start options w table).live, s.reattachDeadline = some (w.now + reattachWindow) := by
  have hr : Recovers w table (start options w table) :=
    recoverSessions_recovers w table [] ⟨by simp, by simp, by simp, by simp, le_rfl, rfl⟩ hids
  have hf := start_fresh options w table
  have hnodup : ((start options w table).live.map (·.id)).Nodup := hr.ids.nodup hids
  have hsub : (start options w table).pendingIds.Sublist ((start options w table).live.map (·.id)) :=
    filter_sublist.map _
  have hlen := (hsub.trans hr.ids).length_le
  rw [length_map] at hlen
  refine ⟨⟨fun s hs _ => filter_eq_singleton hnodup hs, fun s hs _ => ?_, ?_, ?_, ?_, ?_, fun s hs hrun => ?_,
    hsub.nodup hnodup, fun s hs => ?_, by omega, by omega⟩, fun s hs => ?_⟩
  · obtain ⟨e, -, rfl⟩ := hr.live s hs
    exact ⟨rfl, rfl, rfl, rfl⟩
  · rw [hf.log]
    simp
  · rw [hf.consent]
    simp
  · rw [hf.resolutions]
    simp
  · rw [hr.terminations]
    simp
  · rw [(hr.starting s hs).1] at hrun
    cases hrun
  · have hnext := hr.next s hs
    omega
  · obtain ⟨e, -, rfl⟩ := hr.live s hs
    rfl

end

/-- **A restored session waits out its reattach window.** It starts to wait for
the window when it is read; in each step of a run it goes on waiting, or its
agent greets, or a client joins it, which shortens the wait, or it is given up
at its deadline and its client gets a session of its own, or its login session
has gone and the client that comes gets a session of its own. -/
theorem run_reattach (options : Options) (w₀ : World) (table : List (StoredSession × Option ℕ))
    (es : List (World × Event)) (hids : (table.map (·.1.id)).Nodup) (h32 : ∀ e ∈ table, e.1.id < 2 ^ 32)
    (hroom : (start options w₀ table).registry.nextId + table.length + arrivals es < 2 ^ 32)
    (hp : Permits (start options w₀ table) es) :
    (∀ s ∈ (start options w₀ table).live, s.reattachDeadline = some (w₀.now + reattachWindow)) ∧
      ∀ pre w e post, es = pre ++ (w, e) :: post → ∀ s ∈ ((start options w₀ table).run pre).live, s.pending = true →
        Waits w e s ((start options w₀ table).run pre) (((start options w₀ table).run pre).step w e) ∨
        ∃ client, e = .authenticated client ∧
          Replaced w client s ((start options w₀ table).run pre) (((start options w₀ table).run pre).step w e) := by
  refine ⟨(start_reattaching options w₀ hids h32 hroom).2, fun pre w e post hes s hs hpend => ?_⟩
  subst hes
  have hstart := (start_reattaching options w₀ hids h32 hroom).1
  rw [← Nat.zero_add (arrivals _)] at hstart
  obtain ⟨remaining, hre, hpermit⟩ := hstart.run pre hp
  exact (hre.step hpermit).2 s hs hpend

/-- `alice` has an account, and her login session is there or gone. -/
def aliceWorld (now : Time) (loginSession : Bool) : World where
  now := now
  lookupAccount := fun account => if account = text "alice" then some ⟨account, 1000⟩ else none
  loginSessionExists := fun _ => loginSession

/-- Her session was written down. -/
def aliceSession : StoredSession := { id := 1, account := text "alice", uid := 1000, loginSession := text "c2" }

def aliceTable : List (StoredSession × Option ℕ) := [(aliceSession, none)]

/-- She comes ten seconds after the restart; a tick follows in six more. -/
def aliceReturns (loginSession : Bool) : List (World × Event) :=
  [(aliceWorld 0 true, .acceptClient), (aliceWorld (10 * second) loginSession, .authenticated (clientOf 1 (text "alice"))),
    (aliceWorld (16 * second) loginSession, .tick)]

theorem aliceReturns_permits (loginSession : Bool) :
    Permits (start {} (aliceWorld 0 true) aliceTable) (aliceReturns loginSession) := by
  refine ⟨trivial, trivial, fun s _ t _ _ => ?_, trivial⟩
  show 16 * second ≤ s.created + 90 * second
  exact le_trans (Nat.mul_le_mul_right _ (by decide)) (Nat.le_add_left _ _)

/-- Her agent does not come back, and the session is given up. -/
theorem alice_waits_in_vain :
    ((start {} (aliceWorld 0 true) aliceTable).run ((aliceReturns true).take 2)).pendingIds = [1] ∧
    ((start {} (aliceWorld 0 true) aliceTable).run (aliceReturns true)).pendingIds = [] ∧
    ∀ pre w e post, aliceReturns true = pre ++ (w, e) :: post →
      ∀ s ∈ ((start {} (aliceWorld 0 true) aliceTable).run pre).live, s.pending = true →
        Waits w e s ((start {} (aliceWorld 0 true) aliceTable).run pre)
          (((start {} (aliceWorld 0 true) aliceTable).run pre).step w e) ∨
        ∃ client, e = .authenticated client ∧ Replaced w client s ((start {} (aliceWorld 0 true) aliceTable).run pre)
          (((start {} (aliceWorld 0 true) aliceTable).run pre).step w e) :=
  ⟨by decide +kernel, by decide +kernel,
    (run_reattach {} (aliceWorld 0 true) aliceTable (aliceReturns true) (by decide) (by decide) (by decide +kernel)
      (aliceReturns_permits true)).2⟩

/-- Her login session is gone, and the session ends a hundred seconds before
its deadline. -/
theorem gone_login_session : ¬ ∀ (options : Options) (w₀ : World) (table : List (StoredSession × Option ℕ))
    (es : List (World × Event)), (table.map (·.1.id)).Nodup → (∀ e ∈ table, e.1.id < 2 ^ 32) →
    (start options w₀ table).registry.nextId + table.length + arrivals es < 2 ^ 32 →
    Permits (start options w₀ table) es → ∀ pre w e post, es = pre ++ (w, e) :: post →
      ∀ s ∈ ((start options w₀ table).run pre).live, s.pending = true →
        Waits w e s ((start options w₀ table).run pre) (((start options w₀ table).run pre).step w e) := by
  intro h
  have hwaits := h {} (aliceWorld 0 true) aliceTable (aliceReturns false) (by decide) (by decide) (by decide +kernel)
    (aliceReturns_permits false) ((aliceReturns false).take 1) _ _ _ rfl
    (recovered (aliceWorld 0 true) aliceSession none) mem_cons_self rfl
  have hgone : ∀ s ∈ ((start {} (aliceWorld 0 true) aliceTable).run ((aliceReturns false).take 2)).live, s.id ≠ 1 := by
    decide +kernel
  rcases hwaits with ⟨s, hs, hid, -⟩ | ⟨index, frames, isOpen, peer, he, -⟩ | ⟨client, he, hjoin⟩ | ⟨he, -⟩
  · exact hgone s hs hid
  · cases he
  · exact hgone _ hjoin rfl
  · cases he

end Impl
end Daemon
end Farland
