/-
# Invariants that every write keeps

Most invariants of the daemon hold in the middle of an operation as well as
between operations. For these it is enough to look at the single writes
(`Fine`): `Fine.closed` puts the operations of `Closed` together from them.
-/
import Farland.Daemon.Runs

namespace Farland
namespace Daemon

open Server Server.Broker List

namespace Impl

variable {d : Impl} {id : ℕ} {client : Authenticated} {r : Resolved}

/-! ### Invariants of the writes for clients -/

/-- What the writes keep that serve a client, ask about it and take it back. -/
structure Serves (I : Impl → Prop) : Prop where
  connect : ∀ {d : Impl} {id : ℕ} {client : Authenticated}, I d → Owned d → (d.find id).isSome →
    I (d.connect id client)
  serve : ∀ {d : Impl} {id : ℕ} {client : Authenticated}, I d → Owned d → (d.find id).isSome →
    I (d.modify id fun s => { s with peer := client.peer, serving := some ⟨client.id, false⟩ })
  unask : ∀ {d : Impl} {id : ℕ}, I d → Owned d → (d.find id).isSome → I (d.modify id fun s => { s with asking := none })
  hold : ∀ {d : Impl} {id : ℕ} {client : Authenticated}, I d → Owned d → (d.find id).isSome →
    I (d.modify id fun s => { s with asking := some client })
  ask : ∀ {d : Impl} {session connection : ℕ} {who : Party} {now : Time}, I d → Owned d → d.Accepted connection →
    I (d.ask session connection who now)
  disconnected : ∀ {d : Impl} {w : World} {id connection : ℕ}, I d → Owned d → (d.find id).isSome →
    I (d.disconnected w id connection)
  release : ∀ {d : Impl} {session : ℕ}, I d → Owned d → I (d.release session)
  report : ∀ {d : Impl} {id connection : ℕ}, I d → Owned d → connection ≠ 0 → connection < 2 ^ 64 →
    I (d.report id connection)
  /-- The session the control API asked to end may have ended just before. -/
  useAfterTerminate : ∀ {d : Impl} {id : ℕ}, I d → Owned d →
    (d.find id).isSome ∨ .unreached id (.terminate .terminated) ∈ d.log → I (d.use id)

/-- What the writes keep that have nothing to do with the logins at the
machine. -/
structure Mild (I : Impl → Prop) : Prop extends Sends I, Serves I where
  /-- The session ends under a question about a client. -/
  endsAsking : ∀ {d : Impl} {id : ℕ} {q : ConsentRequest}, I d → Owned d → (d.find id).isSome →
    d.Accepted q.connectionId → I (d.endSession id (some (.consentRequest q)))
  forget : ∀ {d : Impl} {connection : ℕ}, I d → Owned d → d.Accepted connection → I (d.forget connection)
  sent : ∀ {d : Impl} {id : ℕ} {q : ConsentRequest} {holder : Option Holder}, I d → Owned d →
    d.Accepted q.connectionId → I (d.note (.sent id (.consentRequest q) holder))
  unreached : ∀ {d : Impl} {id : ℕ} {q : ConsentRequest}, I d → Owned d →
    d.Accepted q.connectionId → I (d.note (.unreached id (.consentRequest q)))

section Mild

variable {I : Impl → Prop} (hI : Mild I)

include hI

/-- A question about a client. -/
theorem Mild.request {q : ConsentRequest} (w : World) (h : Holds I d) (hf : (d.find id).isSome)
    (hq : d.Accepted q.connectionId) : Holds I (d.sendTo w id (.consentRequest q)).1 := by
  have huse := hI.quiet' h (quiet_use hf)
  have hq1 : (d.use id).Accepted q.connectionId := (carries_use d id).mem_log hq
  rcases sendTo_cases d w id (.consentRequest q) with ⟨-, hs⟩ | hs
  · rw [hs]
    exact ⟨hI.sent huse.1 huse.2 hq1, (carries_note _ _).owned huse.2⟩
  · rw [hs]
    have hunreached : Owned ((d.use id).note (.unreached id (.consentRequest q))) := (carries_note _ _).owned huse.2
    exact ⟨hI.endsAsking (hI.unreached huse.1 huse.2 hq1) hunreached hf ((carries_note _ _).mem_log hq1),
      (carries_endSession _ _ _).owned hunreached⟩

theorem Mild.sendClient (w : World) (h : Holds I d)
    (hf : (d.find id).isSome) (hc : d.Accepted client.id) : Holds I (d.sendClient w id client) := by
  have hq := (quiet_use hf).trans (quiet_noteUnlock (d.use id) w id client)
  have h1 := hI.quiet' h hq
  have hf1 : (((d.use id).noteUnlock w id client).find id).isSome := by rw [hq.find_isSome]; exact hf
  have hsend := hI.send (m := newConnectionOf w client) w h1 hf1 (fun c hn => by
    cases hn
    exact .inr (.inl (hq.carries.mem_log hc))) fun q hm => by cases hm
  unfold Impl.sendClient
  rcases sendTo_cases ((d.use id).noteUnlock w id client) w id (newConnectionOf w client) with ⟨-, hs⟩ | hs
  · rw [hs] at hsend ⊢
    refine ⟨hI.serve hsend.1 hsend.2 hf1, Carries.owned ?_ hsend.2⟩
    exact carries_modify fun _ _ h => .inr h
  · rw [hs] at hsend ⊢
    exact hsend

theorem Mild.handOver (w : World) (h : Holds I d)
    (hf : (d.find id).isSome) (hc : d.Accepted client.id) : Holds I (d.handOver w id client) := by
  have h1 : Holds I (d.connect id client) := ⟨hI.connect h.1 h.2 hf, (carries_connect d id client).owned h.2⟩
  have hc1 := (carries_connect d id client).mem_log hc
  unfold Impl.handOver
  dsimp only
  split_ifs with hr htold
  · have hsend := hI.send (m := .disconnect (d.registry.connect id client.id).2 errinfoDisconnectedByOtherConnection) w h1
      hf (fun c hn => by cases hn; exact .inl hr) fun q hm => by cases hm
    have hcarry := (carries_sendTo (d.connect id client) w id
      (.disconnect (d.registry.connect id client.id).2 errinfoDisconnectedByOtherConnection)).mem_log hc1
    rcases sendTo_cases (d.connect id client) w id
      (.disconnect (d.registry.connect id client.id).2 errinfoDisconnectedByOtherConnection) with ⟨-, hs⟩ | hs
    · rw [hs] at hsend hcarry ⊢
      exact hI.sendClient w hsend hf hcarry
    · rw [hs] at htold
      cases htold
  · exact hI.send w h1 hf (fun c hn => by cases hn; exact .inl hr) fun q hm => by cases hm
  · exact hI.sendClient w h1 hf hc1

theorem Mild.replaceAsking (h : Holds I d) (hf : (d.find id).isSome) :
    Holds I (d.replaceAsking id) := by
  unfold Impl.replaceAsking
  split
  · next older holder =>
    obtain ⟨s, hs, ha⟩ := Option.bind_eq_some_iff.mp holder
    have hold : d.Accepted older.id := h.2.clients older (mem_clients.mpr ⟨s, (mem_of_find hs).1, .inr ha⟩)
    have h1 : Holds I (d.modify id fun s => { s with asking := none }) :=
      ⟨hI.unask h.1 h.2 hf, (carries_unask d id).owned h.2⟩
    have h2 : Holds I ((d.modify id fun s => { s with asking := none }).forget older.id) :=
      ⟨hI.forget h1.1 h1.2 ((carries_unask d id).mem_log hold), (carries_forget _ _).owned h1.2⟩
    exact hI.quiet' h2 (quiet_refuse _ _ _ _)
  · exact hI.quiet' h (quiet_use hf)

omit hI in
theorem isSome_find_replaceAsking (d : Impl) (id : ℕ) : ((d.replaceAsking id).find id).isSome = (d.find id).isSome := by
  unfold Impl.replaceAsking
  split
  · exact isSome_find_modify (f := fun s => { s with asking := none }) (fun _ => rfl) id
  · rfl

theorem Mild.askConsent (w : World) (h : Holds I d)
    (hf : (d.find id).isSome) (hc : d.Accepted client.id) : Holds I (d.askConsent w id client) := by
  have h1 := hI.replaceAsking h hf
  have hf1 : ((d.replaceAsking id).find id).isSome := by rw [isSome_find_replaceAsking]; exact hf
  have hc1 := (carries_replaceAsking d id).mem_log hc
  have hcarry := carries_ask id (party client) w.now (.inl hc1)
  have h2 : Holds I ((d.replaceAsking id).ask id client.id (party client) w.now) :=
    ⟨hI.ask h1.1 h1.2 hc1, hcarry.owned h1.2⟩
  have hhold : Carries ((d.replaceAsking id).ask id client.id (party client) w.now)
      (((d.replaceAsking id).ask id client.id (party client) w.now).modify id fun s => { s with asking := some client }) := by
    refine carries_modify fun s c hw => ?_
    rcases hw with hw | hw
    · exact .inr (.inl hw)
    · cases hw
      exact .inl (hcarry.mem_log hc1)
  unfold Impl.askConsent
  refine hI.request w ⟨hI.hold h2.1 h2.2 hf1, hhold.owned h2.2⟩ ?_ (hhold.mem_log (hcarry.mem_log hc1))
  exact (isSome_find_modify (f := fun s => { s with asking := some client }) (fun _ => rfl) id).trans hf1

theorem Mild.answerClient (w : World) (h : Holds I d)
    (hf : (d.find r.session).isSome) (hc : d.Accepted client.id) : Holds I (d.answerClient w r client) := by
  unfold Impl.answerClient
  split_ifs
  · exact hI.handOver w h hf hc
  · exact hI.quiet' h (quiet_refuse _ _ _ _)

theorem Mild.resolveClient (w : World) (h : Holds I d) (hr : Numbered d.log r.connection) :
    Holds I (d.resolveClient w r) := by
  unfold Impl.resolveClient
  cases hs : d.find r.session with
  | none => exact h
  | some s =>
    rw [Option.bind_some]
    cases ha : s.asking with
    | none => exact h
    | some client =>
      have hf : (d.find r.session).isSome := by rw [hs]; rfl
      have hc : d.Accepted client.id := h.2.clients client (mem_clients.mpr ⟨s, (mem_of_find hs).1, .inr ha⟩)
      have hcarry := carries_unask d r.session
      have h1 : Holds I (d.modify r.session fun s => { s with asking := none }) :=
        ⟨hI.unask h.1 h.2 hf, hcarry.owned h.2⟩
      have hf1 : ((d.modify r.session fun s => { s with asking := none }).find r.session).isSome := by
        rw [isSome_find_modify (f := fun s => { s with asking := none }) fun _ => rfl]
        exact hf
      dsimp only
      split_ifs with hid hw hs
      · exact h
      · have hsend := hI.send (m := .consentCancel r.connection) w h1 hf1
          (fun c hc => by cases hc; exact .inr (hcarry.numbered hr)) fun q hm => by cases hm
        have hc2 := (carries_sendTo (d.modify r.session fun s => { s with asking := none }) w r.session
          (.consentCancel r.connection)).mem_log (hcarry.mem_log hc)
        rcases sendTo_cases (d.modify r.session fun s => { s with asking := none }) w r.session
          (.consentCancel r.connection) with ⟨-, hcancel⟩ | hcancel
        · rw [hcancel] at hsend hc2 ⊢
          exact hI.answerClient w hsend hf1 hc2
        · rw [hcancel] at hs
          cases hs
      · have hsend := hI.send (m := .consentCancel r.connection) w h1 hf1
          (fun c hc => by cases hc; exact .inr (hcarry.numbered hr)) fun q hm => by cases hm
        exact hI.quiet' hsend (quiet_refuse _ _ _ _)
      · exact hI.answerClient w h1 hf1 (hcarry.mem_log hc)

theorem Mild.receiveDisconnect {connection : ℕ} (w : World) (h : Holds I d) (hf : (d.find id).isSome) :
    Holds I (d.receiveDisconnect w id connection) := by
  have h1 : Holds I (d.disconnected w id connection) :=
    ⟨hI.disconnected h.1 h.2 hf, (carries_disconnected d w id connection).owned h.2⟩
  have hf1 : ((d.disconnected w id connection).find id).isSome := by
    refine Eq.trans ?_ hf
    exact isSome_find_modify (f := fun s => { s with serving := s.serving.filter fun h => h.connection != connection })
      (fun _ => rfl) id
  have h2 := hI.quiet' h1 (quiet_modify (f := fun s => { s with peer := [] }) hf1 (fun _ => rfl) fun _ _ hw => .inl hw)
  unfold Impl.receiveDisconnect
  dsimp only
  split
  · exact h1
  · split_ifs
    · exact ⟨hI.release h2.1 h2.2, (carries_release _ _).owned h2.2⟩
    · exact h2
    · exact h1

theorem Mild.receiveStats {stats : Stats} (h : Holds I d) (hf : (d.find id).isSome)
    (hs : stats.connectionId < 2 ^ 64) : Holds I (d.receiveStats id stats) := by
  have h1 : Holds I (if stats.connectionId ≠ 0 then d.report id stats.connectionId else d) := by
    split_ifs with h0
    · refine ⟨hI.report h.1 h.2 h0 hs, Carries.owned ?_ h.2⟩
      exact .of_log _ rfl rfl rfl (fun _ => .inr) rfl
    · exact h
  have hf1 : ((if stats.connectionId ≠ 0 then d.report id stats.connectionId else d).find id).isSome := by
    split_ifs <;> exact hf
  have h2 := hI.quiet' h1 (quiet_registry _ ((if stats.connectionId ≠ 0 then d.report id stats.connectionId
    else d).registry.updateIdle id stats.connectionId stats.idleSeconds))
  exact hI.quiet' h2 (quiet_modify hf1 (fun _ => rfl) fun _ _ hw => .inl hw)

theorem Mild.terminate (w : World) (h : Holds I d) (hf : (d.find id).isSome) :
    Holds I (d.terminate w id) := by
  obtain ⟨s, hs⟩ := Option.isSome_iff_exists.mp hf
  have hq : Quiet d (d.modify id fun s => { s with terminateSent := some w.now, endTag := text "requested" }) :=
    quiet_modify hf (fun _ => rfl) fun _ _ hw => .inl hw
  have h1 := hI.quiet' h hq
  have hf1 := hq.find_isSome id
  rw [hf] at hf1
  unfold Impl.terminate
  rw [hs]
  generalize (d.modify id fun s => { s with terminateSent := some w.now, endTag := text "requested" }) = d1 at h1 hf1
  have hsend := hI.send (m := .terminate .terminated) w h1 hf1 (fun c hc => by cases hc) fun q hm => by cases hm
  have hafter : ((d1.sendTo w id (.terminate .terminated)).1.find id).isSome ∨
      .unreached id (.terminate .terminated) ∈ (d1.sendTo w id (.terminate .terminated)).1.log := by
    rcases sendTo_cases d1 w id (.terminate .terminated) with ⟨-, hc⟩ | hc
    · rw [hc]
      exact .inl hf1
    · rw [hc]
      refine .inr ((carries_endSession _ _ _).mem_log ?_)
      exact mem_append_right _ (mem_singleton_self _)
  have h2 := hI.quiet' hsend (quiet_registry _ ((d1.sendTo w id (.terminate .terminated)).1.registry.setEnding id))
  exact ⟨hI.useAfterTerminate h2.1 h2.2 hafter, (carries_use _ _).owned h2.2⟩

theorem Mild.tellSeat (w : World) (h : Holds I d) (hr : Numbered d.log r.connection) :
    Holds I (d.tellSeat w r) := by
  have hlast : ∀ {d : Impl}, Holds I d → (d.find r.session).isSome →
      Holds I (d.sendTo w r.session (.seatTakeover r.allowed)).1 := fun h hf =>
    hI.send w h hf (fun c hc => by cases hc) fun q hm => by cases hm
  unfold Impl.tellSeat
  dsimp only
  split_ifs with hf hw hs
  · have hsend := hI.send (m := .consentCancel r.connection) w h hf (fun c hc => by cases hc; exact .inr hr)
      fun q hm => by cases hm
    rcases sendTo_cases d w r.session (.consentCancel r.connection) with ⟨-, hc⟩ | hc
    · rw [hc] at hsend ⊢
      exact hlast hsend hf
    · rw [hc] at hs
      cases hs
  · exact hI.send w h hf (fun c hc => by cases hc; exact .inr hr) fun q hm => by cases hm
  · exact hlast h hf
  · exact h

end Mild

/-! ### Invariants of every write -/

/-- What every single write keeps; most invariants hold in the middle of an
operation too. -/
structure Fine (I : Impl → Prop) : Prop extends Serves I, Gates I where
  quiet : ∀ {d d' : Impl}, I d → Owned d → Quiet d d' → I d'
  ends : ∀ {d : Impl} {id : ℕ} {cause : Option Message}, I d → Owned d → (d.find id).isSome → I (d.endSession id cause)
  forget : ∀ {d : Impl} {connection : ℕ}, I d → Owned d → I (d.forget connection)
  sent : ∀ {d : Impl} {id : ℕ} {q : ConsentRequest} {holder : Option Holder}, I d → Owned d →
    Numbered d.log q.connectionId → I (d.note (.sent id (.consentRequest q) holder))
  unreached : ∀ {d : Impl} {id : ℕ} {q : ConsentRequest}, I d → Owned d →
    Numbered d.log q.connectionId → I (d.note (.unreached id (.consentRequest q)))
  settled : ∀ {d : Impl} {r : Resolved} {rest : List Resolved} {seat : Bool}, I d → Owned d →
    d.resolutions = r :: rest → (seat = true → ∃ q ∈ d.seatQuestions, q.1 = r.connection) →
    I (note { d with resolutions := rest } (.settled r seat))
  takeLogins : ∀ {d : Impl}, I d → Owned d → I d.takeLogins
  letGo : ∀ {d : Impl} {cookie : ℕ} {allowed : Bool}, I d → Owned d → I (d.letGo cookie allowed)
  openQuestion : ∀ {d : Impl} {w : World} {session : ℕ} {waiting : Waiting}, I d → Owned d → (d.find session).isSome →
    I (d.openQuestion w session waiting)
  closeQuestion : ∀ {d : Impl} {connection : ℕ}, I d → Owned d → I (d.closeQuestion connection)
  opened : ∀ {d : Impl} {s : Live}, I d → Owned d → s.asking = none → s.serving = none →
    I { d with live := d.live ++ [s] }

section Fine

variable {I : Impl → Prop} (hI : Fine I)

include hI

/-- Such an invariant is kept by the writes for clients. -/
theorem Fine.mild : Mild I where
  toServes := hI.toServes
  quiet := hI.quiet
  ends h ho hf _ := hI.ends h ho hf
  endsAsking h ho hf _ := hI.ends h ho hf
  forget h ho _ := hI.forget h ho
  sent h ho hq := hI.sent h ho (.inl hq)
  unreached h ho hq := hI.unreached h ho (.inl hq)

/-- A question, about a client or a login. -/
theorem Fine.request {q : ConsentRequest} (w : World) (h : Holds I d) (hf : (d.find id).isSome)
    (hq : Numbered d.log q.connectionId) : Holds I (d.sendTo w id (.consentRequest q)).1 := by
  have huse := hI.mild.quiet' h (quiet_use hf)
  rcases sendTo_cases d w id (.consentRequest q) with ⟨-, hs⟩ | hs
  · rw [hs]
    exact ⟨hI.sent huse.1 huse.2 (hq.mono _), (carries_note _ _).owned huse.2⟩
  · rw [hs]
    have hunreached : Owned ((d.use id).note (.unreached id (.consentRequest q))) := (carries_note _ _).owned huse.2
    exact ⟨hI.ends (hI.unreached huse.1 huse.2 (hq.mono _)) hunreached hf, (carries_endSession _ _ _).owned hunreached⟩

theorem Fine.letGo' {cookie : ℕ} {allowed : Bool} (h : Holds I d) : Holds I (d.letGo cookie allowed) :=
  ⟨hI.letGo h.1 h.2, (carries_letGo _ _ _).owned h.2⟩

theorem Fine.questionSeat {session : ℕ} (w : World) (waiting : Waiting) (h : Holds I d)
    (hf : (d.find session).isSome) : Holds I (d.questionSeat w session waiting) := by
  have h1 : Holds I (d.openQuestion w session waiting) :=
    ⟨hI.openQuestion h.1 h.2 hf, (carries_openQuestion d w session waiting).owned h.2⟩
  have hnum : Numbered (d.openQuestion w session waiting).log d.nextSeatConnection :=
    .inr ⟨waiting.cookie, mem_append_right _ (mem_singleton_self _)⟩
  have hsend := hI.request (q := { (d.consent.ask session d.nextSeatConnection { user := waiting.account } w.now).2 with
    fromSeat := true }) w h1 hf hnum
  unfold Impl.questionSeat
  dsimp only
  split_ifs
  · exact hsend
  · exact hI.letGo' ⟨hI.closeQuestion hsend.1 hsend.2, (carries_closeQuestion _ _).owned hsend.2⟩

theorem Fine.askSeat (w : World) (waiting : Waiting) (h : Holds I d) : Holds I (d.askSeat w waiting) := by
  rcases askSeat_cases d w waiting with hs | ⟨session, m, allowed, hf, hnone, hm, hs⟩ | ⟨session, hf, hs⟩
  · rw [hs]
    exact hI.letGo' h
  · rw [hs]
    exact hI.letGo' (hI.mild.send w h hf (fun c hc => by rw [hnone] at hc; cases hc) hm)
  · rw [hs]
    exact hI.questionSeat w waiting h hf

theorem Fine.resolve {rest : List Resolved} (w : World) (h : Holds I d)
    (hr : d.resolutions = r :: rest) : Holds I (resolve { d with resolutions := rest } w r) := by
  have hnum : Numbered d.log r.connection := h.2.numbers _ ((numbers_pop hr).symm.subset mem_cons_self)
  have hpop : ∀ seat, Carries d (note { d with resolutions := rest } (.settled r seat)) := by
    intro seat
    exact .of_log _ rfl rfl rfl (fun _ hc => .inr ((numbers_pop hr).symm.subset (mem_cons_of_mem _ hc))) rfl
  unfold Impl.resolve
  cases hq : d.seatQuestions.find? fun q => q.1 == r.connection with
  | none =>
    have h1 : Holds I (note { d with resolutions := rest } (.settled r false)) :=
      ⟨hI.settled h.1 h.2 hr (fun hseat => by cases hseat), (hpop false).owned h.2⟩
    exact hI.mild.resolveClient w h1 (hnum.mono _)
  | some question =>
    have hmem : ∃ q ∈ d.seatQuestions, q.1 = r.connection :=
      ⟨question, mem_of_find?_eq_some hq, by simpa using find?_some hq⟩
    have h1 : Holds I (note { d with resolutions := rest } (.settled r true)) :=
      ⟨hI.settled h.1 h.2 hr fun _ => hmem, (hpop true).owned h.2⟩
    have hclose : ∀ {d : Impl} {connection : ℕ}, Holds I d → Holds I (d.closeQuestion connection) := fun h =>
      ⟨hI.closeQuestion h.1 h.2, (carries_closeQuestion _ _).owned h.2⟩
    exact hclose (hI.letGo' (hI.mild.tellSeat w h1 (hnum.mono _)))

/-- An invariant of every write is one of every operation. -/
theorem Fine.closed : Closed I where
  toGates := hI.toGates
  quiet := hI.quiet
  ends h ho hf _ := hI.ends h ho hf
  handOver h ho hs hc _ := (hI.mild.handOver _ ⟨h, ho⟩ (by rw [hs]; rfl) hc).1
  askConsent h ho hf hc := (hI.mild.askConsent _ ⟨h, ho⟩ hf hc).1
  resolve h ho hr := (hI.resolve _ ⟨h, ho⟩ hr).1
  askTheSeat {d w} h ho := by
    have htake : Holds I d.takeLogins := by
      refine ⟨hI.takeLogins h ho, Carries.owned ?_ ho⟩
      exact .of_log [] (by simp [Impl.takeLogins]) rfl rfl (fun _ => .inr) rfl
    exact (holds_foldl (fun d waiting h => hI.askSeat w waiting h) d.newLogins _ htake).1
  disconnect h ho hf := (hI.mild.receiveDisconnect _ ⟨h, ho⟩ hf).1
  stats h ho hf hs := (hI.mild.receiveStats ⟨h, ho⟩ hf hs).1
  opened h ho ha hs _ := hI.opened h ho ha hs
  terminate h ho hf := (hI.mild.terminate _ ⟨h, ho⟩ hf).1

end Fine

end Impl
end Daemon
end Farland
