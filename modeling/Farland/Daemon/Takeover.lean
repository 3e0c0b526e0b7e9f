/-
# Nobody is taken over behind their back

With [policy] takeover = "ask", a client that comes for a session somebody
holds is held itself until the holder was asked. `NotBehind` is what that is
for: whenever `hand_over` is called while the agent serves a client, a
question about the new one was sent while the agent served that client, and
it was then allowed.

The invariant of a session whose user is being asked is that the question was
sent while the agent served whom it serves now. Three things can come in
between, and `Aware` says that they do not: the registry does not know whom
the agent serves (after a restart, until the first Stats), a client is handed
over while a question about another one is out or over but not yet settled,
and numbers or replies are mixed up.

Key theorems: `run_notBehind`, `released_takes_over`.
-/
import Farland.Daemon.Replies

namespace Farland
namespace Daemon

open Server Server.Broker List Option Impl

variable {d d' : Impl} {policy : PolicySection} {id connection : ℕ} {w : World} {client : Authenticated}
  {log es : List Entry} {f : Live → Live}

/-! ### Histories of takeovers -/

/-- The question about the connection was answered with yes, or by
`takeover_on_timeout = "allow"`. -/
def AllowedIn (policy : PolicySection) (log : List Entry) (session connection : ℕ) : Prop :=
  (∃ p, .replied session connection .allowed (some p) ∈ log) ∨
  policy.takeoverOnTimeout = .allow ∧
    ((∃ a p, .replied session connection a (some p) ∈ log ∧ (a = .timedOut ∨ a = .unavailable)) ∨
      ∃ these p, .left .due these ∈ log ∧ p ∈ these ∧ p.session = session ∧ p.connection = connection)

/-- The agent was asked about the connection while it served `holder`, and
the answer was to let it in. -/
def Consented (policy : PolicySection) (log : List Entry) (session connection : ℕ) (holder : Holder) : Prop :=
  ∃ before q after, log = before ++ .sent session (.consentRequest q) (some holder) :: after ∧
    q.connectionId = connection ∧ AllowedIn policy after session connection

/-- Every hand-over from a client that the agent serves was consented to. -/
def NotBehind (policy : PolicySection) (log : List Entry) : Prop :=
  ∀ before session connection holder asking after,
    log = before ++ .handing session connection (some holder) asking :: after →
    Consented policy before session connection holder

/-- The registry knows whom the agent serves when a client comes and when one
goes, nobody is handed over while a question about another client is out, and
numbers are asked about once. -/
structure Aware (log : List Entry) : Prop where
  delivered : ∀ session connection holder known, .delivered session connection (some holder) known false ∈ log →
    known = some holder.connection ∧ holder.connection ≠ 0
  brought : ∀ session connection holder, .brought session connection (some holder) ∉ log
  gone : ∀ session connection holder known, .gone session connection (some holder) known false ∈ log →
    known = some holder.connection ∧ holder.connection ≠ 0
  alone : ∀ session connection holder asking, .handing session connection holder (some asking) ∉ log
  numbers : ((askedPrompts log).map (·.connection)).Nodup

theorem Aware.of_append (h : Aware (log ++ es)) : Aware log := by
  have hnumbers := h.numbers
  rw [askedPrompts_append, map_append] at hnumbers
  exact ⟨fun session connection holder known hm => h.delivered session connection holder known (mem_append_left _ hm),
    fun session connection holder hm => h.brought session connection holder (mem_append_left _ hm),
    fun session connection holder known hm => h.gone session connection holder known (mem_append_left _ hm),
    fun session connection holder asking hm => h.alone session connection holder asking (mem_append_left _ hm),
    hnumbers.of_append_left⟩

theorem OwnAnswers.of_append (h : OwnAnswers (log ++ es)) : OwnAnswers log :=
  fun session connection a p hm => h session connection a p (mem_append_left _ hm)

theorem AllowedIn.mono {session : ℕ} (h : AllowedIn policy log session connection) (es : List Entry) :
      AllowedIn policy (log ++ es) session connection := by
  rcases h with ⟨p, hp⟩ | ⟨hallow, ⟨a, p, hp, ha⟩ | ⟨these, p, hl, hp⟩⟩
  · exact .inl ⟨p, mem_append_left _ hp⟩
  · exact .inr ⟨hallow, .inl ⟨a, p, mem_append_left _ hp, ha⟩⟩
  · exact .inr ⟨hallow, .inr ⟨these, p, mem_append_left _ hl, hp⟩⟩

theorem Consented.mono {session : ℕ} {holder : Holder}
    (h : Consented policy log session connection holder) (es : List Entry) :
    Consented policy (log ++ es) session connection holder := by
  obtain ⟨before, q, after, hlog, hq, hallowed⟩ := h
  exact ⟨before, q, after ++ es, by rw [hlog, append_assoc, cons_append], hq, hallowed.mono es⟩

/-- The question was sent, and the answer comes now. -/
theorem consented_of_sent {session : ℕ} {holder : Holder}
    {q : ConsentRequest} (hs : .sent session (.consentRequest q) (some holder) ∈ log) (hq : q.connectionId = connection)
    (h : AllowedIn policy es session connection) : Consented policy (log ++ es) session connection holder := by
  obtain ⟨before, after, hlog⟩ := append_of_mem hs
  refine ⟨before, q, after ++ es, by rw [hlog, append_assoc, cons_append], hq, ?_⟩
  rcases h with ⟨p, hp⟩ | ⟨hallow, ⟨a, p, hp, ha⟩ | ⟨these, p, hl, hp⟩⟩
  · exact .inl ⟨p, mem_append_right _ hp⟩
  · exact .inr ⟨hallow, .inl ⟨a, p, mem_append_right _ hp, ha⟩⟩
  · exact .inr ⟨hallow, .inr ⟨these, p, mem_append_right _ hl, hp⟩⟩

theorem NotBehind.append (h : NotBehind policy log)
    (hes : ∀ session connection holder asking, .handing session connection holder asking ∉ es) :
    NotBehind policy (log ++ es) := by
  intro before session connection holder asking after hsplit
  obtain ⟨rest, -, hlog⟩ := History.split_append (hes _ _ _ _) hsplit
  exact h before session connection holder asking rest hlog

namespace Impl

/-- The question about the client that a session holds was sent while the
agent served whom it serves, and a yes to it is one of the agent. The session
`busy` is being seen to. -/
structure HeldInv (policy : PolicySection) (busy : Option ℕ) (d : Impl) : Prop where
  sent : ∀ id s client holder, d.find id = some s → some id ≠ busy → s.asking = some client → s.serving = some holder →
    ∃ q, .sent id (.consentRequest q) (some holder) ∈ d.log ∧ q.connectionId = client.id
  allowed : ∀ r ∈ d.resolutions, r.allowed = true → some r.session ≠ busy → ∀ s client holder,
    d.find r.session = some s → s.asking = some client → client.id = r.connection → s.serving = some holder →
    Consented policy d.log r.session r.connection holder
  notBehind : NotBehind policy d.log

/-- The invariant, as long as the daemon is aware. -/
structure Guarded (policy : PolicySection) (busy : Option ℕ) (d : Impl) : Prop where
  same : d.consent.policy = policy
  numbers : ∀ c ∈ d.numbers, c ∈ (askedPrompts d.log).map (·.connection)
  inv : Aware d.log → OwnAnswers d.log → HeldInv policy busy d

/-- A step that brings nobody closer to a session. -/
structure Idle (d d' : Impl) : Prop where
  policy : d'.consent.policy = d.consent.policy
  numbers : ∀ c ∈ d'.numbers, c ∈ (askedPrompts d'.log).map (·.connection) ∨ c ∈ d.numbers
  resolutions : ∀ r ∈ d'.resolutions, r ∈ d.resolutions
  held : ∀ id s' client holder, d'.find id = some s' → s'.asking = some client → s'.serving = some holder →
    ∃ s, d.find id = some s ∧ s.asking = some client ∧ s.serving = some holder
  log : ∃ es, d'.log = d.log ++ es ∧ ∀ session connection holder asking, .handing session connection holder asking ∉ es

variable {busy : Option ℕ}

theorem Guarded.step (h : Guarded policy busy d) (hi : Idle d d') : Guarded policy busy d' := by
  obtain ⟨es, hlog, hes⟩ := hi.log
  refine ⟨hi.policy.trans h.same, fun c hc => ?_, fun ha ho => ?_⟩
  · rcases hi.numbers c hc with hc | hc
    · exact hc
    · rw [hlog, askedPrompts_append, map_append]
      exact mem_append_left _ (h.numbers c hc)
  · rw [hlog] at ha ho
    have hinv := h.inv ha.of_append ho.of_append
    refine ⟨fun id s' client holder hf hb hasking hserving => ?_,
      fun r hr hallowed hb s' client holder hf hasking hc hserving => ?_, ?_⟩
    · obtain ⟨s, hs, hasking, hserving⟩ := hi.held id s' client holder hf hasking hserving
      obtain ⟨q, hq, hnumber⟩ := hinv.sent id s client holder hs hb hasking hserving
      exact ⟨q, by rw [hlog]; exact mem_append_left _ hq, hnumber⟩
    · obtain ⟨s, hs, hasking, hserving⟩ := hi.held _ s' client holder hf hasking hserving
      rw [hlog]
      exact (hinv.allowed r (hi.resolutions r hr) hallowed hb s client holder hs hasking hc hserving).mono es
    · rw [hlog]
      exact hinv.notBehind.append hes

/-! ### Idle steps -/

theorem Idle.trans {a b c : Impl} (h : Idle a b) (h' : Idle b c) : Idle a c := by
  obtain ⟨es, hlog, hes⟩ := h.log
  obtain ⟨es', hlog', hes'⟩ := h'.log
  refine ⟨h'.policy.trans h.policy, fun n hn => ?_, fun r hr => h.resolutions r (h'.resolutions r hr),
    fun id s' client holder hf ha hs => ?_, es ++ es', by rw [hlog', hlog, append_assoc], fun _ _ _ _ hm => ?_⟩
  · rcases h'.numbers n hn with hn | hn
    · exact .inl hn
    · refine (h.numbers n hn).imp (fun hn => ?_) fun hn => hn
      rw [hlog', askedPrompts_append, map_append]
      exact mem_append_left _ hn
  · obtain ⟨s, hs, ha, hserving⟩ := h'.held id s' client holder hf ha hs
    exact h.held id s client holder hs ha hserving
  · rcases mem_append.mp hm with hm | hm
    · exact hes _ _ _ _ hm
    · exact hes' _ _ _ _ hm

/-- A step that touches neither prompts nor records. -/
theorem idle_of_log (es : List Entry) (hc : d'.consent = d.consent) (hr : d'.resolutions = d.resolutions)
    (hl : d'.live = d.live) (hlog : d'.log = d.log ++ es)
    (hes : ∀ session connection holder asking, .handing session connection holder asking ∉ es) : Idle d d' := by
  refine ⟨by rw [hc], fun c hm => .inr ?_, fun r hm => hr ▸ hm, fun id s' client holder hf ha hs => ?_, es, hlog, hes⟩
  · rwa [numbers_of_eq hc hr] at hm
  · have hfind : d'.find id = d.find id := by
      unfold find
      rw [hl]
    exact ⟨s', hfind ▸ hf, ha, hs⟩

theorem Quiet.idle (h : Quiet d d') : Idle d d' := by
  obtain ⟨es, hlog, hes⟩ := h.log
  refine ⟨by rw [h.consent], fun c hm => .inr ?_, fun r hm => h.resolutions ▸ hm,
    fun id s' client holder hf ha hs => ?_,
    es, hlog, fun _ _ _ _ hm => hes _ hm⟩
  · rwa [numbers_of_eq h.consent h.resolutions] at hm
  · have hessence := find_essence h.live id
    rw [hf] at hessence
    obtain ⟨s, hfind, he⟩ := map_eq_some_iff.mp hessence.symm
    have hasking : s.asking = s'.asking := congrArg (·.2.1) he
    have hserving : s.serving = s'.serving := congrArg (·.2.2) he
    exact ⟨s, hfind, hasking.trans ha, hserving.trans hs⟩

/-- The record that has ended is not found any more. -/
theorem find_endSession (d : Impl) (id : ℕ) (cause : Option Message) (i : ℕ) :
    (d.endSession id cause).find i = if i = id then none else d.find i := by
  unfold find
  rw [(endSession_spec d id cause).live, find?_filter]
  split_ifs with hi
  · rw [find?_eq_none]
    intro s _
    simp [hi]
  · congr 1
    funext s
    by_cases hs : s.id = i
    · simp [hs, hi]
    · simp [hs]

theorem idle_endSession (d : Impl) (id : ℕ) (cause : Option Message) : Idle d (d.endSession id cause) := by
  have hs := endSession_spec d id cause
  obtain ⟨refusal, hrefusal, hlog⟩ := hs.log
  refine ⟨by rw [hs.consent]; rfl, fun c hm => .inr ?_, fun r hm => hs.resolutions ▸ hm,
    fun i s' client holder hf ha hserving => ?_, _, hlog, fun _ _ _ _ hm => ?_⟩
  · rcases mem_numbers.mp hm with ⟨p, hp, rfl⟩ | ⟨r, hr, rfl⟩
    · rw [hs.consent] at hp
      exact mem_numbers.mpr (.inl ⟨p, mem_of_mem_filter hp, rfl⟩)
    · exact mem_numbers.mpr (.inr ⟨r, hs.resolutions ▸ hr, rfl⟩)
  · refine ⟨s', ?_, ha, hserving⟩
    rw [find_endSession] at hf
    split_ifs at hf
    exact hf
  · simp only [mem_cons, mem_append, reduceCtorEq, not_mem_nil, or_false, false_or] at hm
    obtain ⟨c, i, r, he⟩ := hrefusal _ hm
    cases he

/-- A write that gives a record neither a client nor a holder. -/
theorem idle_modify (hid : ∀ s, (f s).id = s.id) (ha : ∀ s client, (f s).asking = some client → s.asking = some client)
    (hs : ∀ s holder, (f s).serving = some holder → s.serving = some holder) : Idle d (d.modify id f) := by
  refine ⟨rfl, fun _ => .inr, fun _ h => h, fun i s' client holder hf hasking hserving => ?_, _, rfl, by simp⟩
  rw [find_modify hid] at hf
  obtain ⟨s, hfind, rfl⟩ := map_eq_some_iff.mp hf
  refine ⟨s, hfind, ?_⟩
  split_ifs at hasking hserving
  · exact ⟨ha s client hasking, hs s holder hserving⟩
  · exact ⟨hasking, hserving⟩

theorem idle_forget (d : Impl) (connection : ℕ) : Idle d (d.forget connection) := by
  refine ⟨rfl, fun c hm => .inr ?_, fun _ h => h, fun id s client holder hf ha hs => ⟨s, hf, ha, hs⟩, _, rfl, by simp⟩
  rcases mem_numbers.mp hm with ⟨p, hp, rfl⟩ | hr
  · exact mem_numbers.mpr (.inl ⟨p, mem_of_mem_filter hp, rfl⟩)
  · exact mem_numbers.mpr (.inr hr)

theorem idle_ask (d : Impl) (session connection : ℕ) (who : Party) (now : Time) :
    Idle d (d.ask session connection who now) := by
  refine ⟨rfl, fun c hm => ?_, fun _ h => h, fun id s client holder hf ha hs => ⟨s, hf, ha, hs⟩, _, rfl, by simp⟩
  rcases mem_numbers.mp hm with ⟨p, hp, rfl⟩ | hr
  · rcases mem_append.mp hp with hp | hp
    · exact .inr (mem_numbers.mpr (.inl ⟨p, mem_of_mem_filter hp, rfl⟩))
    · cases mem_singleton.mp hp
      simp [ask, askedPrompts]
  · exact .inr (mem_numbers.mpr (.inr hr))

/-- A message other than a question: a quiet step, or the session ends. -/
theorem sendTo_quiet {m : Message} (w : World) (hf : (d.find id).isSome)
    (hnames : ∀ c, m.names = some c → c ≠ 0 ∨ Numbered d.log c) (hm : ∀ q, m ≠ .consentRequest q) :
    ∃ d1, Quiet d d1 ∧ (d.sendTo w id m = (d1, true) ∨ d.sendTo w id m = (d1.endSession id (some m), false)) := by
  have hnames' : ∀ c, m.names = some c → c ≠ 0 ∨ Numbered (d.use id).log c :=
    fun c hc => (hnames c hc).imp (fun h => h) fun hn => hn.mono _
  rcases sendTo_cases d w id m with ⟨-, hs⟩ | hs
  · exact ⟨_, (quiet_use hf).trans (quiet_note (e := .sent id m _) ⟨hnames', hm⟩), .inl hs⟩
  · exact ⟨_, (quiet_use hf).trans (quiet_note (e := .unreached id m) ⟨hnames', hm⟩), .inr hs⟩

theorem idle_sendTo (d : Impl) (w : World) (id : ℕ) (m : Message) : Idle d (d.sendTo w id m).1 := by
  rcases sendTo_cases d w id m with ⟨-, hs⟩ | hs
  · rw [hs]
    exact idle_of_log _ rfl rfl rfl (append_assoc _ _ _) (by simp)
  · rw [hs]
    have hnote : Idle d ((d.use id).note (.unreached id m)) := idle_of_log _ rfl rfl rfl (append_assoc _ _ _) (by simp)
    exact hnote.trans (idle_endSession _ _ _)

/-! ### Hand-overs -/

/-- The client that the agent serves. -/
def holder (d : Impl) (id : ℕ) : Option Holder := (d.find id).bind (·.serving)

/-- The client that is asked about. -/
def asked (d : Impl) (id : ℕ) : Option Authenticated := (d.find id).bind (·.asking)

theorem Quiet.holder (h : Quiet d d') (id : ℕ) : d'.holder id = d.holder id := by
  have := congrArg (fun e => e.bind (·.2.2)) (find_essence h.live id)
  simpa [Impl.holder, bind_map, Function.comp_def, Live.essence] using this

theorem Quiet.asked (h : Quiet d d') (id : ℕ) : d'.asked id = d.asked id := by
  have := congrArg (fun e => e.bind (·.2.1)) (find_essence h.live id)
  simpa [Impl.asked, bind_map, Function.comp_def, Live.essence] using this

/-- The client goes to the agent, or the session ends. -/
theorem sendClient_cases (w : World) (hf : (d.find id).isSome) (hc : d.Accepted client.id) : ∃ d1, Quiet d d1 ∧
      (d.sendClient w id client =
          d1.modify id (fun s => { s with peer := client.peer, serving := some ⟨client.id, false⟩ }) ∨
        ∃ cause, d.sendClient w id client = d1.endSession id cause) := by
  have hq := (quiet_use hf).trans (quiet_noteUnlock (d.use id) w id client)
  obtain ⟨d1, hq1, hs⟩ := sendTo_quiet (m := newConnectionOf w client) w (by rw [hq.find_isSome]; exact hf)
    (fun c hn => by cases hn; exact .inr (.inl (hq.carries.mem_log hc))) fun q hm => by cases hm
  refine ⟨d1, hq.trans hq1, ?_⟩
  unfold sendClient
  rcases hs with hs | hs
  · rw [hs]
    exact .inl rfl
  · rw [hs]
    exact .inr ⟨_, rfl⟩

theorem handOver_cases (w : World) (hf : (d.find id).isSome)
    (hc : d.Accepted client.id) : ∃ d1, Quiet (d.connect id client) d1 ∧ (d.handOver w id client =
          d1.modify id (fun s => { s with peer := client.peer, serving := some ⟨client.id, false⟩ }) ∨
        ∃ cause, d.handOver w id client = d1.endSession id cause) := by
  have hc1 := (carries_connect d id client).mem_log hc
  unfold handOver
  dsimp only
  split_ifs with hr htold
  · obtain ⟨d1, hq, hs⟩ := sendTo_quiet (d := d.connect id client)
      (m := .disconnect (d.registry.connect id client.id).2 errinfoDisconnectedByOtherConnection) w hf
      (fun c hn => by cases hn; exact .inl hr) fun q hm => by cases hm
    rcases hs with hs | hs
    · rw [hs]
      obtain ⟨d2, hq2, hs2⟩ := sendClient_cases w (by rw [hq.find_isSome]; exact hf) (hq.carries.mem_log hc1)
      exact ⟨d2, hq.trans hq2, hs2⟩
    · rw [hs] at htold
      cases htold
  · obtain ⟨d1, hq, hs⟩ := sendTo_quiet (d := d.connect id client)
      (m := .disconnect (d.registry.connect id client.id).2 errinfoDisconnectedByOtherConnection) w hf
      (fun c hn => by cases hn; exact .inl hr) fun q hm => by cases hm
    rcases hs with hs | hs
    · rw [hs] at htold
      exact absurd rfl htold
    · rw [hs]
      exact ⟨d1, hq, .inr ⟨_, rfl⟩⟩
  · exact sendClient_cases w hf hc1

/-- A write to a record whose client is not being asked about. -/
theorem Guarded.write (h : Guarded policy busy d) (hid : ∀ s, (f s).id = s.id) (hf : ∀ s, (f s).asking = s.asking)
    (ha : Aware d.log → d.asked id = none) : Guarded policy busy (d.modify id f) := by
  have hlog : (d.modify id f).log = d.log ++ [.used id (d.find id).isSome] := rfl
  refine ⟨h.same, fun c hc => ?_, fun haware ho => ?_⟩
  · rw [hlog, askedPrompts_append, map_append]
    exact mem_append_left _ (h.numbers c hc)
  · have hinv := h.inv haware.of_append ho.of_append
    have hnone := ha haware.of_append
    -- A record with a client that is asked about is another one.
    have hheld : ∀ i s' client, (d.modify id f).find i = some s' → s'.asking = some client → d.find i = some s' := by
      intro i s' client hfind hasking
      rw [find_modify hid] at hfind
      obtain ⟨s, hs, rfl⟩ := map_eq_some_iff.mp hfind
      split_ifs at hasking ⊢ with hsid
      · rw [hf] at hasking
        rw [← hsid, (mem_of_find hs).2, asked, hs, bind_some, hasking] at hnone
        cases hnone
      · exact hs
    refine ⟨fun i s' client holder hfind hb hasking hserving => ?_,
      fun r hr hallowed hb s' client holder hfind hasking hc hserving => ?_, ?_⟩
    · obtain ⟨q, hq, hn⟩ := hinv.sent i s' client holder (hheld i s' client hfind hasking) hb hasking hserving
      exact ⟨q, mem_append_left _ hq, hn⟩
    · exact (hinv.allowed r hr hallowed hb s' client holder (hheld _ s' client hfind hasking) hasking hc
      hserving).mono _
    · exact hinv.notBehind.append (by simp)

/-- `hand_over` is called for a client that the holder let in, or nobody holds
the session. -/
theorem Guarded.connect (h : Guarded policy busy d)
    (hok : Aware d.log → OwnAnswers d.log → ∀ holder, d.holder id = some holder →
      Consented policy d.log id client.id holder) : Guarded policy busy (d.connect id client) := by
  have hlog : (d.connect id client).log = (d.log ++ [.used id (d.find id).isSome]) ++
      [.handing id client.id (d.holder id) ((d.asked id).map (·.id))] := rfl
  have hasked : askedPrompts (d.connect id client).log = askedPrompts d.log := by
    rw [hlog]
    simp [askedPrompts]
  refine ⟨h.same, fun c hc => ?_, fun haware ho => ?_⟩
  · rw [hasked]
    exact h.numbers c hc
  · have haware0 := haware.of_append.of_append
    have ho0 := ho.of_append.of_append
    have hinv := h.inv haware0 ho0
    refine ⟨fun i s client holder hfind hb hasking hserving => ?_,
      fun r hr hallowed hb s client holder hfind hasking hc hserving => ?_, ?_⟩
    · obtain ⟨q, hq, hn⟩ := hinv.sent i s client holder hfind hb hasking hserving
      exact ⟨q, mem_append_left _ (mem_append_left _ hq), hn⟩
    · exact ((hinv.allowed r hr hallowed hb s client holder hfind hasking hc hserving).mono _).mono _
    · intro before session connection holder asking after hsplit
      rcases History.split_snoc hsplit with ⟨rest, -, hrest⟩ | ⟨-, he, hbefore⟩
      · exact (hinv.notBehind.append (by simp)) before session connection holder asking rest hrest
      · obtain ⟨rfl, rfl, hholder, -⟩ := Entry.handing.inj he
        rw [← hbefore]
        exact (hok haware0 ho0 holder hholder.symm).mono _

/-- The whole hand-over. -/
theorem Guarded.handOver
    (h : Guarded policy none d) (hf : (d.find id).isSome) (hc : d.Accepted client.id)
    (hok : Aware d.log → OwnAnswers d.log → ∀ holder, d.holder id = some holder →
      Consented policy d.log id client.id holder) : Guarded policy none (d.handOver w id client) := by
  obtain ⟨d1, hq, hs⟩ := handOver_cases w hf hc
  have h1 := (h.connect hok).step hq.idle
  rcases hs with hs | ⟨cause, hs⟩
  · rw [hs]
    refine h1.write (fun _ => rfl) (fun _ => rfl) fun haware => ?_
    -- The history has the client that was asked about when the hand-over began.
    rw [hq.asked]
    have hmem : .handing id client.id (d.holder id) ((d.asked id).map (·.id)) ∈ d1.log :=
      hq.carries.mem_log (mem_append_right _ (mem_singleton_self _))
    change d.asked id = none
    cases hasked : d.asked id with
    | none => rfl
    | some other =>
      rw [hasked] at hmem
      exact absurd hmem (haware.alone _ _ _ _)
  · rw [hs]
    exact h1.step (idle_endSession _ _ _)

/-! ### Questions -/

theorem idle_replaceAsking (hf : (d.find id).isSome) : Idle d (d.replaceAsking id) := by
  unfold replaceAsking
  split
  · have hunask : Idle d (d.modify id fun s => { s with asking := none }) :=
      idle_modify (fun _ => rfl) (by simp) fun _ _ h => h
    exact (hunask.trans (idle_forget _ _)).trans (quiet_refuse _ _ _ _).idle
  · exact (quiet_use hf).idle

/-- A write to the record that is being seen to. -/
theorem Guarded.writeBusy (h : Guarded policy none d) (id : ℕ)
    (hid : ∀ s, (f s).id = s.id) : Guarded policy (some id) (d.modify id f) := by
  have hlog : (d.modify id f).log = d.log ++ [.used id (d.find id).isSome] := rfl
  refine ⟨h.same, fun c hc => ?_, fun haware ho => ?_⟩
  · rw [hlog, askedPrompts_append, map_append]
    exact mem_append_left _ (h.numbers c hc)
  · have hinv := h.inv haware.of_append ho.of_append
    have hother : ∀ i s', some i ≠ some id → (d.modify id f).find i = some s' → d.find i = some s' := by
      intro i s' hi hfind
      rw [find_modify hid] at hfind
      obtain ⟨s, hs, rfl⟩ := map_eq_some_iff.mp hfind
      split_ifs with hsid
      · rw [(mem_of_find hs).2] at hsid
        exact absurd (congrArg some hsid) hi
      · exact hs
    refine ⟨fun i s' c holder hfind hb hasking hserving => ?_,
      fun r hr hallowed hb s' c holder hfind hasking hc hserving => ?_, hinv.notBehind.append (by simp)⟩
    · obtain ⟨q, hq, hn⟩ := hinv.sent i s' c holder (hother i s' hb hfind) (by simp) hasking hserving
      exact ⟨q, mem_append_left _ hq, hn⟩
    · exact (hinv.allowed r hr hallowed (by simp) s' c holder (hother _ s' hb hfind) hasking hc hserving).mono _

/-- The question about the client was sent while the agent served whom it
serves, and no older question had its number. -/
theorem Guarded.release (h : Guarded policy (some id) d)
    (hsent : ∀ s client holder, d.find id = some s → s.asking = some client → s.serving = some holder →
      ∃ q, .sent id (.consentRequest q) (some holder) ∈ d.log ∧ q.connectionId = client.id)
    (hfresh : Aware d.log → ∀ s client, d.find id = some s → s.asking = some client →
      ∀ r ∈ d.resolutions, r.connection ≠ client.id) : Guarded policy none d := by
  refine ⟨h.same, h.numbers, fun haware ho => ?_⟩
  have hinv := h.inv haware ho
  refine ⟨fun i s client holder hfind _ hasking hserving => ?_,
    fun r hr hallowed _ s client holder hfind hasking hc hserving => ?_, hinv.notBehind⟩
  · by_cases hi : i = id
    · subst hi
      exact hsent s client holder hfind hasking hserving
    · exact hinv.sent i s client holder hfind (by simpa using hi) hasking hserving
  · by_cases hi : r.session = id
    · rw [hi] at hfind
      exact absurd hc.symm (hfresh haware s client hfind hasking r hr)
    · exact hinv.allowed r hr hallowed (by simpa using hi) s client holder hfind hasking hc hserving

/-- The session takes a client to be asked about, and the question goes out or
the session ends. -/
theorem Guarded.question {who : Party}
    {q : ConsentRequest} (h : Guarded policy none d) (hid : ∀ s, (f s).id = s.id)
    (hasks : ∀ s, (f s).asking = some client) (hq : q.connectionId = client.id) :
    Guarded policy none (((d.ask id client.id who w.now).modify id f).sendTo w id (.consentRequest q)).1 := by
  have h1 := h.step (idle_ask d id client.id who w.now)
  have h2 := h1.writeBusy id hid
  -- Every resolution is of an older question, and numbers are asked about once.
  have hfresh : ∀ es, Aware (((d.ask id client.id who w.now).modify id f).log ++ es) →
      ∀ r ∈ d.resolutions, r.connection ≠ client.id := by
    intro es haware r hr he
    have hold := h.numbers r.connection (mem_numbers.mpr (.inr ⟨r, hr, rfl⟩))
    have hnodup := haware.of_append.numbers
    have hasked : askedPrompts ((d.ask id client.id who w.now).modify id f).log =
        askedPrompts d.log ++ [d.consent.promptOf id client.id w.now] := by
      simp [Impl.modify, use, note, ask, askedPrompts]
    rw [hasked, map_append, nodup_append] at hnodup
    exact hnodup.2.2 _ hold _ (mem_singleton_self _) he
  have hclient : ∀ s c, ((d.ask id client.id who w.now).modify id f).find id = some s → s.asking = some c →
    c = client := by
    intro s c hs hasking
    rw [find_modify hid] at hs
    obtain ⟨s0, hs0, rfl⟩ := map_eq_some_iff.mp hs
    rw [if_pos (mem_of_find hs0).2, hasks] at hasking
    exact (Option.some.inj hasking).symm
  have hres : ((d.ask id client.id who w.now).modify id f).resolutions = d.resolutions := rfl
  generalize (d.ask id client.id who w.now).modify id f = d2 at h2 hfresh hclient hres ⊢
  rcases sendTo_cases d2 w id (.consentRequest q) with ⟨-, hs⟩ | hs
  · rw [hs]
    have hnoted : Idle d2 ((d2.use id).note (.sent id (.consentRequest q) ((d2.find id).bind (·.serving)))) :=
      idle_of_log _ rfl rfl rfl (append_assoc _ _ _) (by simp)
    refine (h2.step hnoted).release (fun s c holder hfind hasking hserving => ?_) fun haware s c hfind hasking r hr =>
      ?_
    · have hfind2 : d2.find id = some s := hfind
      refine ⟨q, mem_append_right _ ?_, by rw [hq, hclient s c hfind2 hasking]⟩
      rw [hfind2, bind_some, hserving]
      exact mem_singleton_self _
    · rw [note, use, note, append_assoc] at haware
      rw [hclient s c hfind hasking]
      exact hfresh _ haware r (hres ▸ hr)
  · rw [hs]
    have hnoted : Idle d2 ((d2.use id).note (.unreached id (.consentRequest q))) :=
      idle_of_log _ rfl rfl rfl (append_assoc _ _ _) (by simp)
    refine ((h2.step hnoted).step (idle_endSession _ _ _)).release (fun s c holder hfind => ?_) fun _ s c hfind => ?_
    · rw [find_endSession, if_pos rfl] at hfind
      cases hfind
    · rw [find_endSession, if_pos rfl] at hfind
      cases hfind

theorem Guarded.askConsent
    (h : Guarded policy none d) (hf : (d.find id).isSome) : Guarded policy none (d.askConsent w id client) :=
  (h.step (idle_replaceAsking hf)).question (fun _ => rfl) (fun _ => rfl) rfl

/-! ### Answers -/

/-- Questions are over; a yes is one of the agent's, or nobody is held. -/
theorem Guarded.resolves (h : Guarded policy none d) (rs : List Resolved) (hp : d'.consent.policy = d.consent.policy)
    (hn : ∀ c ∈ d'.numbers, c ∈ d.numbers) (hlive : d'.live = d.live) (hr : d'.resolutions = d.resolutions ++ rs)
    (hlog : d'.log = d.log ++ es)
    (hes : ∀ session connection holder asking, .handing session connection holder asking ∉ es)
    (hnew : Aware d'.log → OwnAnswers d'.log → ∀ r ∈ rs, r.allowed = true → ∀ holder, d.holder r.session = some holder →
      AllowedIn policy es r.session r.connection) : Guarded policy none d' := by
  have hfind : ∀ id, d'.find id = d.find id := by
    intro id
    unfold find
    rw [hlive]
  refine ⟨hp.trans h.same, fun c hc => ?_, fun haware ho => ?_⟩
  · rw [hlog, askedPrompts_append, map_append]
    exact mem_append_left _ (h.numbers c (hn c hc))
  · have hnew := hnew haware ho
    rw [hlog] at haware ho
    have hinv := h.inv haware.of_append ho.of_append
    refine ⟨fun id s client holder hf _ hasking hserving => ?_,
      fun r hm hallowed _ s client holder hf hasking hc hserving => ?_, ?_⟩
    · rw [hfind] at hf
      obtain ⟨q, hq, hnumber⟩ := hinv.sent id s client holder hf (by simp) hasking hserving
      exact ⟨q, by rw [hlog]; exact mem_append_left _ hq, hnumber⟩
    · rw [hfind] at hf
      rw [hlog]
      rw [hr] at hm
      rcases mem_append.mp hm with hm | hm
      · exact (hinv.allowed r hm hallowed (by simp) s client holder hf hasking hc hserving).mono es
      · obtain ⟨q, hq, hnumber⟩ := hinv.sent r.session s client holder hf (by simp) hasking hserving
        refine consented_of_sent hq (hnumber.trans hc) (hnew r hm hallowed holder ?_)
        rw [Impl.holder, hf, bind_some, hserving]
    · rw [hlog]
      exact hinv.notBehind.append hes

theorem allowed_onDefault {b : ConsentBroker} {p : Prompt} {why : Text} {withdraw : Bool}
    (h : (b.onDefault p why withdraw).allowed = true) : b.policy.takeoverOnTimeout = .allow := by
  simpa [ConsentBroker.onDefault] using h

theorem Guarded.answer {a : ConsentAnswer}
    (h : Guarded policy none d) : Guarded policy none (d.answer id connection a) := by
  refine h.resolves (d.consent.answered connection a).2.toList (by simp [Impl.answer])
    (fun _ hc => (d.numbers_answer id connection a).subset hc) rfl rfl rfl (by simp) fun _ ho r hr hallowed holder _ => ?_
  rw [d.consent.answered_resolved] at hr
  obtain ⟨p, hp, rfl⟩ := map_eq_some_iff.mp (mem_toList.mp hr)
  have hmem : .replied id connection a (some p) ∈ (d.answer id connection a).log := by
    simp [Impl.answer, hp]
  have hsession := ho id connection a p hmem
  have hconnection := (ConsentBroker.mem_of_find hp).2
  rw [ConsentBroker.answer_session, ConsentBroker.answer_connection, hsession, hconnection, hp]
  cases a with
  | allowed => exact .inl ⟨p, mem_cons_self⟩
  | denied => cases hallowed
  | timedOut =>
    refine .inr ⟨?_, .inl ⟨.timedOut, p, mem_cons_self, .inl rfl⟩⟩
    rw [← h.same]
    exact allowed_onDefault hallowed
  | unavailable =>
    refine .inr ⟨?_, .inl ⟨.unavailable, p, mem_cons_self, .inr rfl⟩⟩
    rw [← h.same]
    exact allowed_onDefault hallowed

theorem Guarded.expire {now : Time} (h : Guarded policy none d) :
    Guarded policy none (d.expire now) := by
  refine h.resolves (d.consent.due now).2 rfl (fun _ hc => (d.numbers_expire now).subset hc) rfl rfl rfl (by simp)
    fun _ _ r hr hallowed _ _ => ?_
  obtain ⟨p, hp, rfl⟩ := mem_map.mp hr
  refine .inr ⟨?_, .inr ⟨_, p, mem_singleton_self _, hp, rfl, rfl⟩⟩
  rw [← h.same]
  exact allowed_onDefault hallowed

/-- When the registry knows of nobody any more, the agent serves nobody. -/
theorem holder_disconnected {state : Session} {holder : Holder} (haware : Aware (d.disconnected w id connection).log)
    (hs : (d.disconnected w id connection).registry.find id = some state) (h0 : state.connection = 0)
    (hattached : state.attached = false) : (d.disconnected w id connection).holder id ≠ some holder := by
  intro hh
  have hregistry : (d.disconnected w id connection).registry.find id = (d.registry.find id).map fun s =>
      if s.connection ≠ connection ∨ connection = 0 then s
      else { s with connection := 0, disconnectedSince := some w.now, idleSeconds := 0 } :=
    SessionRegistry.find_update fun s => by split_ifs <;> rfl
  have hrecord : (d.disconnected w id connection).find id = (d.find id).map fun s =>
      if s.id = id then { s with serving := s.serving.filter fun h => h.connection != connection } else s :=
    find?_updateFirst (f := fun s => { s with serving := s.serving.filter fun h => h.connection != connection })
      (fun _ => rfl) id d.live
  rw [hregistry] at hs
  obtain ⟨before, hbefore, rfl⟩ := map_eq_some_iff.mp hs
  rw [Impl.holder, hrecord] at hh
  obtain ⟨s', hs', hserving⟩ := bind_eq_some_iff.mp hh
  obtain ⟨s, hfind, rfl⟩ := map_eq_some_iff.mp hs'
  rw [if_pos (mem_of_find hfind).2] at hserving
  obtain ⟨hserving, hother⟩ := filter_eq_some_iff.mp hserving
  have hattached0 : before.attached = false := by
    split_ifs at hattached <;> exact hattached
  have hgone : .gone id connection (some holder) (some before.connection) false ∈
    (d.disconnected w id connection).log := by
    refine mem_append_left _ (mem_append_right _ (mem_singleton.mpr ?_))
    rw [hbefore, hfind, bind_some, hserving]
    simp [hattached0]
  obtain ⟨hknown, hnonzero⟩ := haware.gone id connection holder _ hgone
  rw [Option.some.injEq] at hknown
  simp only [bne_iff_ne] at hother
  rw [if_pos (.inl (by rw [hknown]; exact hother))] at h0
  exact hnonzero (hknown ▸ h0)

theorem Guarded.disconnect (h : Guarded policy none d)
    (hf : (d.find id).isSome) : Guarded policy none (d.receiveDisconnect w id connection) := by
  have hgone : Idle d (d.disconnected w id connection) := by
    have hnote : Idle d (d.note (.gone id connection ((d.find id).bind (·.serving))
        ((d.registry.find id).map (·.connection)) ((d.registry.find id).any (·.attached)))) :=
      idle_of_log _ rfl rfl rfl rfl (by simp)
    have hfilter := @idle_modify (d.note (.gone id connection ((d.find id).bind (·.serving))
        ((d.registry.find id).map (·.connection)) ((d.registry.find id).any (·.attached)))) id
      (fun s => { s with serving := s.serving.filter fun h => h.connection != connection }) (fun _ => rfl)
      (fun _ _ h => h) fun s holder hs => (filter_eq_some_iff.mp hs).1
    exact (hnote.trans hfilter).trans (quiet_registry _ _).idle
  have h1 := h.step hgone
  have hf1 : ((d.disconnected w id connection).find id).isSome :=
    (isSome_find_modify (f := fun s => { s with serving := s.serving.filter fun h => h.connection != connection })
      (fun _ => rfl) id).trans hf
  have hq : Quiet (d.disconnected w id connection)
      ((d.disconnected w id connection).modify id fun s => { s with peer := [] }) :=
    quiet_modify hf1 (fun _ => rfl) fun _ _ hw => .inl hw
  have h2 := h1.step hq.idle
  unfold receiveDisconnect
  dsimp only
  split
  · exact h1
  · next state hstate =>
    split_ifs with hzero hattached
    · refine h2.resolves (((d.disconnected w id connection).modify id fun s => { s with peer := [] }).consent.released
        id).2 rfl (fun _ hc => (numbers_release _ id).subset hc) rfl rfl rfl (by simp) fun haware _ r hr _ holder hholder => ?_
      obtain ⟨p, hp, rfl⟩ := mem_map.mp hr
      have hsession : p.session = id := by simpa using (mem_filter.mp hp).2
      rw [show (ConsentBroker.releasedOf p).session = id from hsession, hq.holder] at hholder
      exact absurd hholder (holder_disconnected haware.of_append.of_append hstate hzero hattached)
    · exact h2
    · exact h1

/-! ### Settling -/

theorem idle_tellSeat (d : Impl) (w : World) (r : Resolved) : Idle d (d.tellSeat w r) := by
  unfold tellSeat
  dsimp only
  split_ifs
  · exact (idle_sendTo _ _ _ _).trans (idle_sendTo _ _ _ _)
  · exact idle_sendTo _ _ _ _
  · exact idle_sendTo _ _ _ _
  · exact idle_of_log [] rfl rfl rfl (by simp) (by simp)

theorem idle_resolveSeat (d : Impl) (w : World) (r : Resolved) (cookie : ℕ) : Idle d (d.resolveSeat w r cookie) :=
  (idle_tellSeat d w r).trans (idle_of_log [] rfl rfl rfl (append_nil _).symm (by simp))

/-- The client that was held goes to the session, or is refused. -/
theorem Guarded.answerClient {r : Resolved}
    (h : Guarded policy none d) (hf : (d.find r.session).isSome) (hc : d.Accepted client.id)
    (hok : r.allowed = true → Aware d.log → OwnAnswers d.log → ∀ holder, d.holder r.session = some holder →
      Consented policy d.log r.session client.id holder) : Guarded policy none (d.answerClient w r client) := by
  unfold Impl.answerClient
  split_ifs with hallowed
  · exact h.handOver hf hc (hok hallowed)
  · exact h.step (quiet_refuse _ _ _ _).idle

theorem Guarded.resolveClient {r : Resolved} (h : Guarded policy none d)
    (ho : Owned d) (hnum : Numbered d.log r.connection)
    (hok : r.allowed = true → Aware d.log → OwnAnswers d.log → ∀ s client holder, d.find r.session = some s →
      s.asking = some client → client.id = r.connection → s.serving = some holder →
      Consented policy d.log r.session r.connection holder) : Guarded policy none (d.resolveClient w r) := by
  unfold Impl.resolveClient
  cases hs : d.find r.session with
  | none => exact h
  | some s =>
    rw [bind_some]
    cases ha : s.asking with
    | none => exact h
    | some client =>
      have hc : d.Accepted client.id := ho.clients client (mem_clients.mpr ⟨s, (mem_of_find hs).1, .inr ha⟩)
      have hidle : Idle d (d.modify r.session fun s => { s with asking := none }) :=
        idle_modify (fun _ => rfl) (by simp) fun _ _ h => h
      have h1 := h.step hidle
      have hcarry := carries_unask d r.session
      have hrecord : (d.modify r.session fun s => { s with asking := none }).find r.session =
          some { s with asking := none } := find_modify_self (f := fun s => { s with asking := none }) (fun _ => rfl) hs
      dsimp only
      by_cases hid : client.id = r.connection
      · rw [if_neg (by simpa using hid)]
        -- The holder is still the one that was asked.
        have hok1 : ∀ d1, Quiet (d.modify r.session fun s => { s with asking := none }) d1 → r.allowed = true →
            Aware d1.log → OwnAnswers d1.log → ∀ holder, d1.holder r.session = some holder →
            Consented policy d1.log r.session client.id holder := by
          intro d1 hq hallowed haware hown holder hholder
          obtain ⟨es, hlog⟩ := (hcarry.trans hq.carries).log
          rw [hlog] at haware hown ⊢
          rw [hq.holder, Impl.holder, hrecord] at hholder
          rw [hid]
          exact (hok hallowed haware.of_append hown.of_append s client holder hs ha hid hholder).mono es
        have hf1 : ((d.modify r.session fun s => { s with asking := none }).find r.session).isSome := by
          rw [hrecord]
          rfl
        by_cases hw : r.withdraw = true
        · rw [if_pos hw]
          obtain ⟨d1, hq, hsent⟩ := sendTo_quiet (m := .consentCancel r.connection) w hf1
            (fun c hn => by cases hn; exact .inr (hcarry.numbered hnum)) fun q hm => by cases hm
          have h2 := h1.step hq.idle
          rcases hsent with hsent | hsent
          · rw [hsent]
            exact h2.answerClient (by rw [hq.find_isSome]; exact hf1) (hq.carries.mem_log (hcarry.mem_log hc))
              (hok1 d1 hq)
          · rw [hsent]
            exact (h2.step (idle_endSession _ _ _)).step (quiet_refuse _ _ _ _).idle
        · rw [if_neg hw]
          exact h1.answerClient hf1 (hcarry.mem_log hc) (hok1 _ (.refl _))
      · rw [if_pos hid]
        exact h

theorem Guarded.resolve {r : Resolved} {rest : List Resolved}
    (h : Guarded policy none d) (ho : Owned d) (hr : d.resolutions = r :: rest) :
    Guarded policy none (resolve { d with resolutions := rest } w r) := by
  have hnum : Numbered d.log r.connection := by
    refine ho.numbers _ (mem_numbers.mpr (.inr ⟨r, ?_, rfl⟩))
    rw [hr]
    exact mem_cons_self
  have hsub : ∀ seat, ∀ c ∈ (note { d with resolutions := rest } (.settled r seat)).numbers, c ∈ d.numbers := by
    intro seat c hc
    rcases mem_numbers.mp hc with hp | ⟨r', hr', rfl⟩
    · exact mem_numbers.mpr (.inl hp)
    · exact mem_numbers.mpr (.inr ⟨r', by rw [hr]; exact mem_cons_of_mem _ hr', rfl⟩)
  have hpop : ∀ seat, Idle d (note { d with resolutions := rest } (.settled r seat)) := by
    intro seat
    refine ⟨rfl, fun c hc => .inr (hsub seat c hc), fun r' hr' => ?_,
      fun id s client holder hf ha hs => ⟨s, hf, ha, hs⟩,
      _, rfl, by simp⟩
    rw [hr]
    exact mem_cons_of_mem _ hr'
  have hmem : r ∈ d.resolutions := by
    rw [hr]
    exact mem_cons_self
  unfold Impl.resolve
  split
  · exact (h.step (hpop true)).step (idle_resolveSeat _ _ _ _)
  · have hcarry : Carries d (note { d with resolutions := rest } (.settled r false)) :=
      .of_log _ rfl rfl rfl (fun c hc => .inr (hsub false c hc)) rfl
    refine (h.step (hpop false)).resolveClient (hcarry.owned ho) (hnum.mono _)
      fun hallowed haware hown s client holder hf ha hc hs => ?_
    have hinv := h.inv haware.of_append hown.of_append
    exact (hinv.allowed r hmem hallowed (by simp) s client holder hf ha hc hs).mono _

/-! ### Along a run -/

theorem idle_letGo (d : Impl) (cookie : ℕ) (allowed : Bool) : Idle d (d.letGo cookie allowed) :=
  idle_of_log [] rfl rfl rfl (by simp [letGo]) (by simp)

theorem idle_askSeat (d : Impl) (w : World) (waiting : Waiting) : Idle d (d.askSeat w waiting) := by
  rcases askSeat_cases d w waiting with hs | ⟨session, m, allowed, -, -, -, hs⟩ | ⟨session, -, hs⟩
  · rw [hs]
    exact idle_letGo _ _ _
  · rw [hs]
    exact (idle_sendTo _ _ _ _).trans (idle_letGo _ _ _)
  · rw [hs]
    have huse : Idle d (d.use session) := idle_of_log _ rfl rfl rfl rfl (by simp)
    have hask := huse.trans (idle_ask (d.use session) session d.nextSeatConnection { user := waiting.account } w.now)
    have hopen : Idle d (d.openQuestion w session waiting) :=
      hask.trans (idle_of_log [.seatAsked d.nextSeatConnection waiting.cookie] rfl rfl rfl rfl (by simp))
    have hsend := hopen.trans (idle_sendTo _ w session (.consentRequest
      { (d.consent.ask session d.nextSeatConnection { user := waiting.account } w.now).2 with fromSeat := true }))
    unfold questionSeat
    dsimp only
    split_ifs
    · exact hsend
    · exact hsend.trans (idle_of_log [] rfl rfl rfl (by simp [letGo, closeQuestion]) (by simp))

theorem Guarded.askTheSeat (h : Guarded policy none d) :
    Guarded policy none (d.askTheSeat w) := by
  have htake : Guarded policy none d.takeLogins := h.step (idle_of_log [] rfl rfl rfl (by simp [takeLogins]) (by simp))
  have hloop : ∀ (l : List Waiting) {d : Impl}, Guarded policy none d →
      Guarded policy none (l.foldl (fun d waiting => d.askSeat w waiting) d) := by
    intro l
    induction l with
    | nil => exact fun h => h
    | cons x l ih => exact fun h => ih (h.step (idle_askSeat _ w x))
  exact hloop d.newLogins htake

theorem idle_terminate : Idle d (d.terminate w id) := by
  unfold terminate
  split
  · exact idle_of_log [] rfl rfl rfl (by simp) (by simp)
  · have hmodify : Idle d (d.modify id fun s => { s with terminateSent := some w.now, endTag := text "requested" }) :=
      idle_modify (fun _ => rfl) (fun _ _ h => h) fun _ _ h => h
    exact (hmodify.trans (idle_sendTo _ _ _ _)).trans (idle_of_log _ rfl rfl rfl rfl (by simp))

theorem idle_receiveStats {stats : Stats} : Idle d (d.receiveStats id stats) := by
  have hreport : Idle d (if stats.connectionId ≠ 0 then d.report id stats.connectionId else d) := by
    split_ifs
    · exact idle_of_log _ rfl rfl rfl rfl (by simp)
    · exact idle_of_log [] rfl rfl rfl (by simp) (by simp)
  unfold receiveStats
  generalize (if stats.connectionId ≠ 0 then d.report id stats.connectionId else d) = d1 at hreport ⊢
  refine Idle.trans (hreport.trans (quiet_registry d1
    (d1.registry.updateIdle id stats.connectionId stats.idleSeconds)).idle) ?_
  exact idle_modify (fun _ => rfl) (fun _ _ h => h) fun _ _ h => h

theorem idle_opened {s : Live} (ha : s.asking = none) : Idle d { d with live := d.live ++ [s] } := by
  refine ⟨rfl, fun _ => .inr, fun _ h => h, fun id s' client holder hf hasking hserving => ⟨s', ?_, hasking, hserving⟩,
    [], by simp, by simp⟩
  have hfind : (d.live ++ [s]).find? (fun s => s.id == id) = some s' := hf
  rw [find?_append] at hfind
  cases hold : d.live.find? (fun s => s.id == id) with
  | some s0 =>
    rw [hold] at hfind
    exact hold.trans hfind
  | none =>
    rw [hold, none_or] at hfind
    rw [mem_singleton.mp (mem_of_find?_eq_some hfind), ha] at hasking
    cases hasking

theorem guarded_closed (hask : policy.takeover = .ask) : Closed (Guarded policy none) where
  quiet h _ hq := h.step hq.idle
  ends h _ _ _ := h.step (idle_endSession _ _ _)
  handOver {d w id s client} h _ hs hc hb := by
    refine h.handOver (by rw [hs]; rfl) hc fun haware _ holder hholder => ?_
    rw [Impl.holder, hs, bind_some] at hholder
    rcases hb with ⟨known, attached, hdelivered, hfree⟩ | hbrought
    · rw [h.same] at hfree
      obtain ⟨rfl, hzero⟩ := hfree hask
      rw [hholder] at hdelivered
      obtain ⟨hknown, hnonzero⟩ := haware.delivered id client.id holder known hdelivered
      exact absurd (hzero _ hknown) hnonzero
    · rw [hholder] at hbrought
      exact absurd hbrought (haware.brought id client.id holder)
  askConsent h _ hf _ := h.askConsent hf
  resolve h ho hr := h.resolve ho hr
  askTheSeat h _ := h.askTheSeat
  disconnect h _ hf := h.disconnect hf
  answer h _ := h.answer
  stats h _ _ _ := h.step idle_receiveStats
  expire h _ := h.expire
  accept {d} h _ := by
    unfold acceptClient
    split_ifs
    · exact h
    · exact h.step (idle_of_log _ rfl rfl rfl rfl (by simp))
  login h _ := h.step (idle_of_log _ rfl rfl rfl rfl (by simp))
  awaited h _ := h.step (idle_of_log [] rfl rfl rfl (by simp) (by simp))
  releaseAll h _ := h.step (idle_of_log [] rfl rfl rfl (by simp) (by simp))
  opened h _ ha _ _ := h.step (idle_opened ha)
  terminate h _ _ := h.step idle_terminate

/-- **Nobody is taken over behind their back** in a run with takeover = "ask"
in which the daemon is aware and agents reply for their own sessions. -/
theorem run_notBehind (options : Options) (w : World) (table : List (StoredSession × Option ℕ))
    (es : List (World × Event)) (hask : options.policy.takeover = .ask)
    (haware : Aware ((start options w table).run es).log) (hown : OwnReplies ((start options w table).run es).log) :
    NotBehind options.policy ((start options w table).run es).log := by
  have hfresh := start_fresh options w table
  have hstart : Guarded options.policy none (start options w table) := by
    refine ⟨by rw [hfresh.consent], fun c hc => ?_, fun _ _ => ⟨fun id s client holder hf _ ha => ?_, fun r hr => ?_,
      ?_⟩⟩
    · rw [numbers, hfresh.consent, hfresh.resolutions] at hc
      cases hc
    · rw [(hfresh.live s (mem_of_find hf).1).2] at ha
      cases ha
    · rw [hfresh.resolutions] at hr
      cases hr
    · rw [hfresh.log]
      intro before session connection holder asking after hsplit
      simp at hsplit
  have h := ((guarded_closed hask).run es ⟨hstart, hfresh.owned⟩).1
  exact (h.inv haware ((start_replies options w table es).ownAnswers_iff.mpr hown)).notBehind

/-! ### A question that fell away -/

/-- The second client asks for the session of the first, whose user allows it. -/
def handedOver : List (World × Event) :=
  calmly (arriving 1 (text "alice") ++ [.acceptClient, .authenticated (clientOf 2 (text "alice")),
    .readAgent 1 [.message (.consentReply 2 .allowed)] true, .tick])

/-- What the log has of an agent that does as it is told. -/
def orderly : Entry → Bool
  | .delivered _ _ (some holder) known false => known = some holder.connection ∧ holder.connection ≠ 0
  | .brought _ _ (some _) | .gone _ _ _ _ _ | .handing _ _ _ (some _) => false
  | .replied session _ _ (some p) => p.session = session
  | _ => true

/-- The session goes to the second client, and its user was asked. -/
theorem handedOver_notBehind : .handing 1 2 (some ⟨1, false⟩) none ∈
    ((start { noPam := true } {} []).run handedOver).log ∧
    NotBehind {} ((start { noPam := true } {} []).run handedOver).log := by
  have hall : ((start { noPam := true } {} []).run handedOver).log.all orderly = true := by decide
  have hentry := all_eq_true.mp hall
  refine ⟨by decide, run_notBehind _ _ _ _ rfl ⟨fun session connection holder known hm => ?_,
    fun session connection holder hm => ?_, fun session connection holder known hm => ?_,
    fun session connection holder asking hm => ?_, by decide⟩
    ((start_replies _ _ _ _).ownAnswers_iff.mp fun session connection a p hm => ?_)⟩
  all_goals simpa [orderly] using hentry _ hm

/-- The second client asks, the first leaves, a third comes in, and then the
loop settles the question about the second. -/
def comesInMeanwhile : List (World × Event) :=
  calmly (arriving 1 (text "alice") ++ [.acceptClient, .authenticated (clientOf 2 (text "alice")),
    .readAgent 1 [.message (.disconnect 1 0)] true, .acceptClient, .authenticated (clientOf 3 (text "alice")), .tick])

/-- The third client was not asked. -/
def thirdUnasked : Entry → Bool
  | .sent _ (.consentRequest _) (some ⟨3, false⟩) => false
  | _ => true

/-- **A question that fell away takes the session from a client that came in
meanwhile.** -/
theorem released_takes_over : ¬ ∀ (options : Options) (w : World) (table : List (StoredSession × Option ℕ))
    (es : List (World × Event)), options.policy.takeover = .ask →
    NotBehind options.policy ((start options w table).run es).log := by
  intro h
  have hhanding : .handing 1 2 (some ⟨3, false⟩) none ∈ ((start { noPam := true } {} []).run comesInMeanwhile).log :=
    by decide
  have hunasked : ((start { noPam := true } {} []).run comesInMeanwhile).log.all thirdUnasked = true := by decide
  obtain ⟨before, after, hsplit⟩ := append_of_mem hhanding
  obtain ⟨first, q, rest, hbefore, -⟩ := h { noPam := true } {} [] comesInMeanwhile rfl _ _ _ _ _ _ hsplit
  have hsent : .sent 1 (.consentRequest q) (some ⟨3, false⟩) ∈
    ((start { noPam := true } {} []).run comesInMeanwhile).log := by
    rw [hsplit, hbefore]
    simp
  exact absurd (all_eq_true.mp hunasked _ hsent) (by simp [thirdUnasked])

end Impl
end Daemon
end Farland
