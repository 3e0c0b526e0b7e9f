/-
# Records and references

`endSession` takes a record out of `live`, and `sendTo` calls it when the
agent cannot be reached. Whoever holds a reference to the record must not use
it after that. The one place that does is `terminate`: the control API asked
for the end of a session, its Terminate did not reach the agent (which may
not have connected yet), and `registry.set_ending(session->id)` still reads
the record.

Key theorems: `run_uses_live`, `terminate_uses_ended`.
-/
import Farland.Daemon.Writes

namespace Farland
namespace Daemon

open Server Server.Broker List

/-- Every use of a record found it there. -/
def UsesLive (log : List Entry) : Prop := ∀ session there, .used session there ∈ log → there = true

/-- Every Terminate that the control API asked for reached its agent. -/
def Terminates (log : List Entry) : Prop := ∀ session, .unreached session (.terminate .terminated) ∉ log

namespace Impl

/-- A step whose uses find their records. -/
def Safe (d d' : Impl) : Prop := ∃ es, d'.log = d.log ++ es ∧ UsesLive es

theorem Safe.trans {a b c : Impl} (h : Safe a b) (h' : Safe b c) : Safe a c := by
  obtain ⟨es, he, hs⟩ := h
  obtain ⟨es', he', hs'⟩ := h'
  refine ⟨es ++ es', by rw [he', he, append_assoc], fun session there hm => ?_⟩
  rcases mem_append.mp hm with hm | hm
  · exact hs session there hm
  · exact hs' session there hm

theorem Quiet.safe {d d' : Impl} (h : Quiet d d') : Safe d d' := by
  obtain ⟨es, he, hb⟩ := h.log
  exact ⟨es, he, fun session there hm => hb _ hm⟩

/-- A step that adds entries of other kinds. -/
theorem safe_of_log {d d' : Impl} (es : List Entry) (hlog : d'.log = d.log ++ es)
    (h : ∀ session there, .used session there ∉ es) : Safe d d' :=
  ⟨es, hlog, fun session there hm => absurd hm (h session there)⟩

theorem safe_note {d : Impl} {e : Entry} (h : ∀ session there, e ≠ .used session there) : Safe d (d.note e) :=
  safe_of_log [e] rfl fun session there hm => h session there (mem_singleton.mp hm).symm

theorem safe_use {d : Impl} {id : ℕ} (h : (d.find id).isSome) : Safe d (d.use id) := (quiet_use h).safe

theorem safe_modify {d : Impl} {id : ℕ} {f : Live → Live} (h : (d.find id).isSome) : Safe d (d.modify id f) :=
  safe_use h

theorem safe_endSession {d : Impl} {id : ℕ} {cause : Option Message} (h : (d.find id).isSome) :
    Safe d (d.endSession id cause) := by
  obtain ⟨refusal, hr, hlog⟩ := (endSession_spec d id cause).log
  refine ⟨_, hlog, fun session there hm => ?_⟩
  simp only [mem_cons, mem_append, Entry.used.injEq, reduceCtorEq, false_or] at hm
  rcases hm with ⟨-, ht⟩ | hm | hm
  · exact ht.trans h
  · obtain ⟨c, i, r, he⟩ := hr _ hm
    cases he
  · simp at hm

/-- The uses so far found their records, unless a Terminate was lost. -/
def LiveSoFar (d : Impl) : Prop := Terminates d.log → UsesLive d.log

theorem LiveSoFar.step {d d' : Impl} (h : LiveSoFar d) (hs : Safe d d') : LiveSoFar d' := by
  obtain ⟨es, he, hes⟩ := hs
  intro ht session there hm
  rw [he] at ht hm
  rcases mem_append.mp hm with hm | hm
  · exact h (fun session hu => ht session (mem_append_left _ hu)) session there hm
  · exact hes session there hm

theorem liveSoFar_fine : Fine LiveSoFar where
  quiet h _ hq := h.step hq.safe
  ends h _ hf := h.step (safe_endSession hf)
  connect h _ hf := h.step ((safe_use hf).trans (safe_note fun _ _ hn => by cases hn))
  serve h _ hf := h.step (safe_modify hf)
  unask h _ hf := h.step (safe_modify hf)
  hold h _ hf := h.step (safe_modify hf)
  forget h _ := h.step (safe_of_log _ rfl (by simp))
  ask h _ _ := h.step (safe_of_log _ rfl (by simp))
  sent h _ _ := h.step (safe_note fun _ _ hn => by cases hn)
  unreached h _ _ := h.step (safe_note fun _ _ hn => by cases hn)
  settled h _ _ _ := h.step (safe_of_log _ rfl (by simp))
  takeLogins h _ := h.step (safe_of_log [] (by simp [takeLogins]) (by simp))
  letGo h _ := h.step (safe_of_log [] (by simp [letGo]) (by simp))
  openQuestion h _ hf := by
    refine h.step ((safe_use hf).trans (safe_of_log _ (append_assoc _ _ _) ?_))
    simp
  closeQuestion h _ := h.step (safe_of_log [] (by simp [closeQuestion]) (by simp))
  disconnected {d w id connection} h _ hf := by
    have hsafe : Safe d (d.disconnected w id connection) := by
      refine (safe_note fun _ _ hn => by cases hn).trans
        (safe_modify (f := fun s => { s with serving := s.serving.filter fun h => h.connection != connection }) ?_)
      exact hf
    exact h.step hsafe
  release h _ := h.step (safe_of_log _ rfl (by simp))
  answer h _ := h.step (safe_of_log _ rfl (by simp))
  report h _ _ _ := h.step (safe_of_log _ rfl (by simp))
  expire h _ := h.step (safe_of_log _ rfl (by simp))
  accept {d} h _ := by
    unfold acceptClient
    split_ifs
    · exact h
    · exact h.step (safe_of_log _ rfl (by simp))
  login h _ := h.step (safe_of_log _ rfl (by simp))
  awaited h _ := h
  releaseAll h _ := h
  opened h _ _ _ := h
  useAfterTerminate h _ hf := by
    rcases hf with hf | hf
    · exact h.step (safe_use hf)
    · exact fun ht => absurd (mem_append_left _ hf) (ht _)

/-- **A record is used only while it is there**, in every run in which every
Terminate that the control API asks for reaches its agent. -/
theorem run_uses_live (options : Options) (w : World) (table : List (StoredSession × Option ℕ))
    (es : List (World × Event)) (h : Terminates ((start options w table).run es).log) :
    UsesLive ((start options w table).run es).log := by
  have hfresh := start_fresh options w table
  have hstart : LiveSoFar (start options w table) := by
    intro _ session there hm
    rw [hfresh.log] at hm
    cases hm
  exact (liveSoFar_fine.closed.run es ⟨hstart, hfresh.owned⟩).1 h

/-! ### A session that ends under its Terminate -/

/-- A session whose agent has not connected yet, and that is to end. -/
def terminateUnstarted : List (World × Event) :=
  calmly ((arriving 1 (text "alice")).take 2 ++ [.requestTerminate 1, .tick])

/-- A session whose agent has connected, and that is to end. -/
def terminateStarted : List (World × Event) := calmly (arriving 1 (text "alice") ++ [.requestTerminate 1, .tick])

/-- The Terminate reaches an agent that has connected. -/
theorem terminateStarted_terminates : Terminates ((start { noPam := true } {} []).run terminateStarted).log := by
  intro session hm
  have hreached : (((start { noPam := true } {} []).run terminateStarted).log.all fun e =>
      match e with
      | .unreached _ _ => false
      | _ => true) = true := by decide
  exact absurd (all_eq_true.mp hreached _ hm) (by simp)

theorem terminateStarted_uses_live : .used 1 true ∈ ((start { noPam := true } {} []).run terminateStarted).log ∧
    UsesLive ((start { noPam := true } {} []).run terminateStarted).log :=
  ⟨by decide, run_uses_live _ _ _ _ terminateStarted_terminates⟩

/-- **`terminate` uses a record that is gone**: the agent has not connected,
so the Terminate ends the session at once. -/
theorem terminate_uses_ended : ¬ ∀ (options : Options) (w : World) (table : List (StoredSession × Option ℕ))
    (es : List (World × Event)), UsesLive ((start options w table).run es).log := by
  intro h
  have hgone : .used 1 false ∈ ((start { noPam := true } {} []).run terminateUnstarted).log := by decide
  exact absurd (h _ _ _ _ 1 false hgone) (by decide)

end Impl
end Daemon
end Farland
