/-
# Who answers a question

`consent.answered` finds a prompt by its connection number, and `read_agent`
passes on the number that an agent sent. The history says which prompts are
out (`outstanding`), so it also says when a reply is taken for the question
of another session: exactly when an agent replies under the number of a
prompt that is out about another session.

A prompt leaves the broker once, in one of five ways, and what comes of it is
acted upon at most once, whatever the agents send (`Accounted`).

Key theorems: `run_ownAnswers_iff`, `reply_for_another`.
-/
import Farland.Daemon.Writes
import Farland.Lib.History

namespace Farland
namespace Daemon

open Server Server.Broker List

variable {d d' : Impl}

/-! ### Histories of prompts -/

/-- Whether a prompt that leaves this way has a resolution. -/
def Leaving.resolves : Leaving → Bool
  | .answered | .released | .due => true
  | .ended | .forgotten => false

/-- What an entry does to the prompts that are out. -/
def Entry.prompts (out : List Prompt) : Entry → List Prompt
  | .asked p => out ++ [p]
  | .left _ these => out.filter fun p => ! these.contains p
  | _ => out

variable (log : List Entry)

/-- The prompts that are out after a history. -/
def outstanding : List Prompt := log.foldl Entry.prompts []

def askedPrompts : List Prompt := log.flatMap fun e => match e with
  | .asked p => [p]
  | _ => []

def leftPrompts : List Prompt := log.flatMap fun e => match e with
  | .left _ these => these
  | _ => []

/-- The prompts that left with a resolution. -/
def resolvedPrompts : List Prompt := log.flatMap fun e => match e with
  | .left how these => if how.resolves then these else []
  | _ => []

/-- The resolutions that were acted upon. -/
def settledResolutions : List Resolved := log.flatMap fun e => match e with
  | .settled r _ => [r]
  | _ => []

def Prompt.key (p : Prompt) : ℕ × ℕ := (p.session, p.connection)

def Resolved.key (r : Resolved) : ℕ × ℕ := (r.session, r.connection)

/-- Only the session's own agent answered a prompt. -/
def OwnAnswers : Prop := ∀ session connection a p,
  .replied session connection a (some p) ∈ log → p.session = session

/-- No agent replied under the number of a prompt that was out about another
session. -/
def OwnReplies : Prop := ∀ before session connection a prompt after,
  log = before ++ .replied session connection a prompt :: after →
  ∀ p ∈ outstanding before, p.connection = connection → p.session = session

/-- Each prompt is out or has left once; each resolution comes from one prompt
and is queued or was acted upon once. -/
structure Accounted (d : Impl) : Prop where
  left : (askedPrompts d.log).Perm (leftPrompts d.log ++ d.consent.prompts)
  acted : ((settledResolutions d.log ++ d.resolutions).map Resolved.key).Perm ((resolvedPrompts d.log).map Prompt.key)

theorem outstanding_append (a b : List Entry) : outstanding (a ++ b) = b.foldl Entry.prompts (outstanding a) :=
  foldl_append

theorem askedPrompts_append (a b : List Entry) : askedPrompts (a ++ b) = askedPrompts a ++ askedPrompts b :=
  flatMap_append

theorem leftPrompts_append (a b : List Entry) : leftPrompts (a ++ b) = leftPrompts a ++ leftPrompts b :=
  flatMap_append

theorem resolvedPrompts_append (a b : List Entry) :
    resolvedPrompts (a ++ b) = resolvedPrompts a ++ resolvedPrompts b := flatMap_append

theorem settledResolutions_append (a b : List Entry) :
    settledResolutions (a ++ b) = settledResolutions a ++ settledResolutions b := flatMap_append

/-- An entry that says nothing about prompts. -/
def Entry.Still : Entry → Bool
  | .asked _ | .left _ _ | .replied _ _ _ _ | .settled _ _ => false
  | _ => true

theorem Entry.Benign.still {log : List Entry} {e : Entry} (h : e.Benign log) : e.Still = true := by
  cases e <;> first | rfl | exact h.elim

/-- Entries that say nothing about prompts. -/
structure Stills (es : List Entry) : Prop where
  out : ∀ out, es.foldl Entry.prompts out = out
  asked : askedPrompts es = []
  left : leftPrompts es = []
  resolved : resolvedPrompts es = []
  settled : settledResolutions es = []
  replied : ∀ session connection a prompt, .replied session connection a prompt ∉ es

theorem stills_of_forall : ∀ {es : List Entry}, (∀ e ∈ es, e.Still = true) → Stills es
  | [], _ => ⟨fun _ => rfl, rfl, rfl, rfl, rfl, fun _ _ _ _ h => by cases h⟩
  | e :: es, h => by
    have ih := stills_of_forall fun e' he' => h e' (mem_cons_of_mem _ he')
    have he := h e mem_cons_self
    refine ⟨fun out => ?_, ?_, ?_, ?_, ?_, fun session connection a prompt hm => ?_⟩
    · rw [foldl_cons, ih.out]
      cases e <;> first | rfl | cases he
    · rw [askedPrompts, flatMap_cons, ← askedPrompts, ih.asked]
      cases e <;> first | rfl | cases he
    · rw [leftPrompts, flatMap_cons, ← leftPrompts, ih.left]
      cases e <;> first | rfl | cases he
    · rw [resolvedPrompts, flatMap_cons, ← resolvedPrompts, ih.resolved]
      cases e <;> first | rfl | cases he
    · rw [settledResolutions, flatMap_cons, ← settledResolutions, ih.settled]
      cases e <;> first | rfl | cases he
    · exact absurd (h _ hm) (by simp [Entry.Still])

namespace Impl

/-- The history knows the prompts, and what each reply was taken for. -/
structure Replies (d : Impl) : Prop where
  out : d.consent.prompts = outstanding d.log
  numbers : (d.consent.prompts.map (·.connection)).Nodup
  accounted : Accounted d
  replied : ∀ before session connection a prompt after, d.log = before ++ .replied session connection a prompt ::
    after →
    prompt = (outstanding before).find? (fun p => p.connection == connection) ∧
      ((outstanding before).map (·.connection)).Nodup

/-- A step that does nothing to prompts and resolutions. -/
theorem Replies.still (h : Replies d) (es : List Entry) (hc : d'.consent.prompts = d.consent.prompts)
    (hr : d'.resolutions = d.resolutions) (hlog : d'.log = d.log ++ es) (hes : ∀ e ∈ es, e.Still = true) :
    Replies d' := by
  have hs := stills_of_forall hes
  refine ⟨?_, ?_, ⟨?_, ?_⟩, fun before session connection a prompt after hsplit => ?_⟩
  · rw [hc, hlog, outstanding_append, hs.out]
    exact h.out
  · rw [hc]
    exact h.numbers
  · rw [hc, hlog, askedPrompts_append, leftPrompts_append, hs.asked, hs.left, append_nil, append_nil]
    exact h.accounted.left
  · rw [hr, hlog, settledResolutions_append, resolvedPrompts_append, hs.settled, hs.resolved, append_nil,
      append_nil]
    exact h.accounted.acted
  · rw [hlog] at hsplit
    obtain ⟨rest, -, hsplit⟩ := History.split_append (hs.replied _ _ _ _) hsplit
    exact h.replied before session connection a prompt rest hsplit

/-- A reply comes; nothing has been done about it yet. -/
theorem Replies.reply (h : Replies d) (session connection : ℕ) (a : ConsentAnswer) :
    Replies (d.note (.replied session connection a (d.consent.find connection))) := by
  refine ⟨?_, h.numbers, ⟨?_, ?_⟩, fun before session' connection' a' prompt after hsplit => ?_⟩
  · rw [note, outstanding_append]
    exact h.out
  · rw [note, askedPrompts_append, leftPrompts_append]
    simpa [askedPrompts, leftPrompts] using h.accounted.left
  · rw [note, settledResolutions_append, resolvedPrompts_append]
    simpa [settledResolutions, resolvedPrompts] using h.accounted.acted
  · rcases History.split_snoc hsplit with ⟨rest, -, hsplit⟩ | ⟨-, he, hbefore⟩
    · exact h.replied before session' connection' a' prompt rest hsplit
    · cases he
      rw [← hbefore, ← h.out]
      exact ⟨rfl, h.numbers⟩

/-- Prompts leave, with resolutions or without. -/
theorem Replies.leave (h : Replies d) (how : Leaving) (these : List Prompt) (rs : List Resolved)
    (hlog : d'.log = d.log ++ [.left how these])
    (hc : d'.consent.prompts = d.consent.prompts.filter fun p => ! these.contains p)
    (hperm : (these ++ d'.consent.prompts).Perm d.consent.prompts) (hr : d'.resolutions = d.resolutions ++ rs)
    (hkey : rs.map Resolved.key = if how.resolves then these.map Prompt.key else []) : Replies d' := by
  refine ⟨?_, ?_, ⟨?_, ?_⟩, fun before session connection a prompt after hsplit => ?_⟩
  · rw [hlog, outstanding_append, ← h.out]
    exact hc
  · rw [hc]
    exact h.numbers.sublist (filter_sublist.map _)
  · have hleft : leftPrompts [.left how these] = these := by simp [leftPrompts]
    have hasked : askedPrompts [.left how these] = [] := rfl
    rw [hlog, askedPrompts_append, leftPrompts_append, hleft, hasked, append_nil, append_assoc]
    exact h.accounted.left.trans (hperm.symm.append_left _)
  · have hres : (resolvedPrompts [.left how these]).map Prompt.key = rs.map Resolved.key := by
      have hone : resolvedPrompts [.left how these] = if how.resolves then these else [] := append_nil _
      rw [hkey, hone]
      split_ifs <;> rfl
    have hsettled : settledResolutions [.left how these] = [] := rfl
    rw [hlog, hr, settledResolutions_append, resolvedPrompts_append, hsettled, append_nil, ← append_assoc,
      map_append, map_append (f := Prompt.key), hres]
    exact h.accounted.acted.append_right _
  · rw [hlog] at hsplit
    obtain ⟨rest, -, hsplit⟩ := History.split_append (by simp) hsplit
    exact h.replied before session connection a prompt rest hsplit

/-- A prompt goes out under a number that no other prompt has. -/
theorem Replies.asked (h : Replies d) {p : Prompt} (hlog : d'.log = d.log ++ [.asked p])
    (hc : d'.consent.prompts = d.consent.prompts ++ [p]) (hr : d'.resolutions = d.resolutions)
    (hnew : p.connection ∉ d.consent.prompts.map (·.connection)) : Replies d' := by
  refine ⟨?_, ?_, ⟨?_, ?_⟩, fun before session connection a prompt after hsplit => ?_⟩
  · rw [hlog, outstanding_append, ← h.out]
    exact hc
  · rw [hc, map_append]
    refine List.Nodup.append h.numbers (nodup_singleton _) fun c hmem hone => ?_
    rw [map_singleton, mem_singleton] at hone
    exact hnew (hone ▸ hmem)
  · have hasked : askedPrompts [.asked p] = [p] := rfl
    have hleft : leftPrompts [.asked p] = [] := rfl
    rw [hlog, hc, askedPrompts_append, leftPrompts_append, hasked, hleft, append_nil, ← append_assoc]
    exact h.accounted.left.append_right _
  · rw [hlog, hr, settledResolutions_append, resolvedPrompts_append]
    simpa [settledResolutions, resolvedPrompts] using h.accounted.acted
  · rw [hlog] at hsplit
    obtain ⟨rest, -, hsplit⟩ := History.split_append (by simp) hsplit
    exact h.replied before session connection a prompt rest hsplit

/-- A resolution is taken off the queue and acted upon. -/
theorem Replies.settle (h : Replies d) {r : Resolved} {rest : List Resolved} {seat : Bool}
    (hlog : d'.log = d.log ++ [.settled r seat]) (hc : d'.consent = d.consent) (hr : d.resolutions = r :: rest)
    (hr' : d'.resolutions = rest) : Replies d' := by
  refine ⟨?_, ?_, ⟨?_, ?_⟩, fun before session connection a prompt after hsplit => ?_⟩
  · rw [hlog, hc, outstanding_append]
    exact h.out
  · rw [hc]
    exact h.numbers
  · rw [hlog, hc, askedPrompts_append, leftPrompts_append]
    simpa [askedPrompts, leftPrompts] using h.accounted.left
  · have hone : settledResolutions [.settled r seat] = [r] := rfl
    have hnone : resolvedPrompts [.settled r seat] = [] := rfl
    have hacted := h.accounted.acted
    rw [hr] at hacted
    rw [hlog, hr', settledResolutions_append, resolvedPrompts_append, hone, hnone, append_nil, append_assoc]
    exact hacted
  · rw [hlog] at hsplit
    obtain ⟨rest, -, hsplit⟩ := History.split_append (by simp) hsplit
    exact h.replied before session connection a prompt rest hsplit

/-- What is left of a list without those of a kind. -/
theorem filter_not_contains (l : List Prompt) (q : Prompt → Bool) :
    (l.filter fun p => ! q p) = l.filter fun p => ! (l.filter q).contains p := by
  refine filter_congr fun p hp => ?_
  simp [hp]

theorem Replies.forget (h : Replies d) (connection : ℕ) : Replies (d.forget connection) := by
  refine h.leave .forgotten _ [] rfl (filter_not_contains _ _) (d.consent.forget_prompts connection) ?_ rfl
  simp [Impl.forget]

theorem Replies.ask (h : Replies d) (session connection : ℕ) (who : Party) (now : Time) :
    Replies (d.ask session connection who now) := by
  refine (h.forget connection).asked (p := d.consent.promptOf session connection now)
    (by simp [Impl.ask, Impl.forget]) rfl rfl ?_
  rw [mem_map]
  rintro ⟨p, hp, he⟩
  have := of_mem_filter hp
  rw [bne_iff_ne] at this
  exact this he

theorem Replies.answer (h : Replies d) (session connection : ℕ) (a : ConsentAnswer) :
    Replies (d.answer session connection a) := by
  have h1 := h.reply session connection a
  have hperm := d.consent.answered_prompts connection a
  have hresolved := d.consent.answered_resolved connection a
  refine h1.leave .answered (d.consent.find connection).toList
    (d.consent.answered connection a).2.toList (by simp [Impl.answer, note]) ?_ hperm rfl ?_
  · change (d.consent.answered connection a).1.prompts = _
    unfold ConsentBroker.answered
    cases hf : d.consent.find connection with
    | none => simp [note]
    | some p =>
      have hnodup : d.consent.prompts.Nodup := h.numbers.of_map _
      dsimp only
      rw [hnodup.erase_eq_filter]
      refine filter_congr fun x _ => ?_
      simp [bne, Bool.beq_eq_decide_eq, eq_comm]
  · rw [hresolved]
    cases d.consent.find connection with
    | none => rfl
    | some p => simp [Resolved.key, Prompt.key, Leaving.resolves]

theorem Replies.release (h : Replies d) (session : ℕ) : Replies (d.release session) := by
  refine h.leave .released _ _ rfl (filter_not_contains _ _) (d.consent.take_prompts session) rfl ?_
  rw [ConsentBroker.released, map_map]
  rfl

theorem Replies.expire (h : Replies d) (now : Time) : Replies (d.expire now) := by
  refine h.leave .due _ _ rfl (filter_not_contains _ _) (d.consent.due_prompts now) rfl ?_
  rw [ConsentBroker.due, map_map]
  rfl

theorem Replies.abandon (h : Replies d) (session : ℕ) : Replies (d.abandon session) := by
  refine h.leave .ended _ [] rfl (filter_not_contains _ _) (d.consent.take_prompts session) ?_ rfl
  simp [Impl.abandon]

theorem Replies.use (h : Replies d) (id : ℕ) : Replies (d.use id) :=
    h.still _ rfl rfl rfl (by simp [Entry.Still])

theorem Replies.endSession (h : Replies d) (id : ℕ) (cause : Option Message) :
    Replies (d.endSession id cause) := by
  have hs := endSession_spec d id cause
  obtain ⟨refusal, hr, hlog⟩ := hs.log
  refine ((h.use id).abandon id).still (refusal ++ [.ended id cause (d.consent.take id).2 d.undecided]) ?_
    hs.resolutions ?_ ?_
  · rw [hs.consent]
    rfl
  · rw [hlog]
    simp [Impl.abandon, Impl.use, note]
  · intro e he
    rcases mem_append.mp he with he | he
    · obtain ⟨c, i, r, rfl⟩ := hr e he
      rfl
    · cases mem_singleton.mp he
      rfl

theorem replies_fine : Fine Replies where
  quiet {d d'} h _ hq := by
    obtain ⟨es, hlog, hes⟩ := hq.log
    exact h.still es (by rw [hq.consent]) hq.resolutions hlog fun e he => (hes e he).still
  ends h _ _ := h.endSession _ _
  connect h _ _ := h.still _ rfl rfl (append_assoc _ _ _) (by simp [Entry.Still])
  serve h _ _ := h.still _ rfl rfl rfl (by simp [Entry.Still])
  unask h _ _ := h.still _ rfl rfl rfl (by simp [Entry.Still])
  hold h _ _ := h.still _ rfl rfl rfl (by simp [Entry.Still])
  forget h _ := h.forget _
  ask h _ _ := h.ask _ _ _ _
  sent h _ _ := h.still _ rfl rfl rfl (by simp [Entry.Still])
  unreached h _ _ := h.still _ rfl rfl rfl (by simp [Entry.Still])
  settled h _ hr _ := h.settle rfl rfl hr rfl
  takeLogins h _ := h.still [] rfl rfl (by simp [takeLogins]) (by simp)
  letGo h _ := h.still [] rfl rfl (by simp [letGo]) (by simp)
  openQuestion h _ _ := ((h.use _).ask _ _ _ _).still _ rfl rfl rfl (by simp [Entry.Still])
  closeQuestion h _ := h.still [] rfl rfl (by simp [closeQuestion]) (by simp)
  disconnected h _ _ := h.still _ rfl rfl (append_assoc _ _ _) (by simp [Entry.Still])
  release h _ := h.release _
  answer h _ := h.answer _ _ _
  report h _ _ _ := h.still _ rfl rfl rfl (by simp [Entry.Still])
  expire h _ := h.expire _
  accept {d} h _ := by
    unfold acceptClient
    split_ifs
    · exact h
    · exact h.still _ rfl rfl rfl (by simp [Entry.Still])
  login h _ := h.still _ rfl rfl rfl (by simp [Entry.Still])
  awaited h _ := h.still [] rfl rfl (by simp) (by simp)
  releaseAll h _ := h.still [] rfl rfl (by simp) (by simp)
  opened h _ _ _ := h.still [] rfl rfl (by simp) (by simp)
  useAfterTerminate h _ _ := h.use _

/-- The prompt of a number that no other prompt has. -/
theorem find?_connection {l : List Prompt} (h : (l.map (·.connection)).Nodup) {p : Prompt} (hp : p ∈ l) :
    l.find? (fun q => q.connection == p.connection) = some p := by
  obtain ⟨q, hq⟩ : ∃ q, l.find? (fun q => q.connection == p.connection) = some q := by
    rw [← Option.isSome_iff_exists, find?_isSome]
    exact ⟨p, hp, by simp⟩
  have hc := find?_some hq
  rw [beq_iff_eq] at hc
  rw [hq, inj_on_of_nodup_map h (mem_of_find?_eq_some hq) hp hc]

theorem Replies.ownAnswers_iff (h : Replies d) : OwnAnswers d.log ↔ OwnReplies d.log := by
  constructor
  · intro hown before session connection a prompt after hsplit p hp hc
    obtain ⟨hprompt, hnodup⟩ := h.replied before session connection a prompt after hsplit
    refine hown session connection a p ?_
    rw [← hc, find?_connection hnodup hp] at hprompt
    rw [hsplit, hprompt]
    exact mem_append_right _ mem_cons_self
  · intro hown session connection a p hmem
    obtain ⟨before, after, hsplit⟩ := append_of_mem hmem
    have hfind := (h.replied before session connection a (some p) after hsplit).1.symm
    have hc := find?_some hfind
    rw [beq_iff_eq] at hc
    exact hown before session connection a (some p) after hsplit p (mem_of_find?_eq_some hfind) hc

/-- The history knows the prompts along every run. -/
theorem start_replies (options : Options) (w : World) (table : List (StoredSession × Option ℕ))
    (es : List (World × Event)) : Replies ((start options w table).run es) := by
  have hfresh := start_fresh options w table
  have hstart : Replies (start options w table) := by
    refine ⟨?_, ?_, ⟨?_, ?_⟩, fun before session connection a prompt after hsplit => ?_⟩
    · rw [hfresh.log, hfresh.consent]
      rfl
    · rw [hfresh.consent]
      exact nodup_nil
    · rw [hfresh.log, hfresh.consent]
      exact .refl _
    · rw [hfresh.log, hfresh.resolutions]
      exact .refl _
    · rw [hfresh.log] at hsplit
      simp at hsplit
  exact (replies_fine.closed.run es ⟨hstart, hfresh.owned⟩).1

/-- **Only a session's own agent answers for it**, in every run and exactly
when no agent replies under the number of another session's prompt; each
prompt leaves once and is acted upon at most once. -/
theorem run_ownAnswers_iff (options : Options) (w : World) (table : List (StoredSession × Option ℕ))
    (es : List (World × Event)) :
    OwnAnswers ((start options w table).run es).log ∧ Accounted ((start options w table).run es) ↔
      OwnReplies ((start options w table).run es).log := by
  have h := start_replies options w table es
  exact ⟨fun hown => h.ownAnswers_iff.mp hown.1, fun hown => ⟨h.ownAnswers_iff.mpr hown, h.accounted⟩⟩

/-! ### A reply from another session -/

/-- A second client asks for the session of `a`, and the agent of `b` allows
it. -/
def replyingForAnother : List (World × Event) :=
  calmly (arriving 1 (text "a") ++ arriving 2 (text "b") ++ [.acceptClient, .authenticated (clientOf 3 (text "a")),
    .readAgent 2 [.message (.consentReply 3 .allowed)] true])

/-- **An agent answers for another session.** -/
theorem reply_for_another : ¬ ∀ (options : Options) (w : World) (table : List (StoredSession × Option ℕ))
    (es : List (World × Event)),
    OwnAnswers ((start options w table).run es).log ∧ Accounted ((start options w table).run es) := by
  intro h
  have hreply : .replied 2 3 .allowed (some ⟨1, 3, 33 * second⟩) ∈
      ((start { noPam := true } {} []).run replyingForAnother).log := by decide
  exact absurd ((h _ _ _ _).1 _ _ _ _ hreply) (by decide)

end Impl
end Daemon
end Farland
