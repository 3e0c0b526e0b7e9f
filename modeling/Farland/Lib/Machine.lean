/-
# Machines that emit

A machine takes inputs one after the other, may emit at each and may fail.
What one emits can be the input of another (`piped`): a run of the two is a
run of the first and then a run of the second over what it emitted. Inputs
that carry a key can go to a machine of their own (`routed`): if none of those
fails over its own inputs, the run over the interleaved inputs does not
either, and what it emits for a key is what that key's machine emits.

Key theorems: `run_append`, `run_piped`, `run_routed`.
-/
import Mathlib.Tactic

namespace Farland
namespace Machine

open List

variable {κ α β σ ε : Type}

/-- What a machine emits over several inputs, and where it ends. -/
def run (step : σ → α → Except ε (Option β × σ)) : σ → List α → Except ε (List β × σ)
  | s, [] => .ok ([], s)
  | s, a :: as => do
    let (emitted, s) ← step s a
    let (later, s) ← run step s as
    .ok (emitted.toList ++ later, s)

variable {step : σ → α → Except ε (Option β × σ)}

theorem run_cons {s s' s'' : σ} {a : α} {as : List α} {b : Option β} {bs : List β} (h : step s a = .ok (b, s'))
    (hs : run step s' as = .ok (bs, s'')) : run step s (a :: as) = .ok (b.toList ++ bs, s'') := by
  rw [run, h]
  change (run step s' as).bind _ = _
  rw [hs]
  rfl

/-- The parts of a run that does not fail. -/
theorem of_run_cons {s s'' : σ} {a : α} {as : List α} {out : List β} (h : run step s (a :: as) = .ok (out, s'')) :
    ∃ b s' bs, step s a = .ok (b, s') ∧ run step s' as = .ok (bs, s'') ∧ out = b.toList ++ bs := by
  rw [run] at h
  cases hs : step s a with
  | error e =>
    rw [hs] at h
    cases h
  | ok p =>
    obtain ⟨b, s'⟩ := p
    rw [hs] at h
    change (run step s' as).bind _ = _ at h
    cases hr : run step s' as with
    | error e =>
      rw [hr] at h
      cases h
    | ok q =>
      obtain ⟨bs, t⟩ := q
      rw [hr] at h
      cases h
      exact ⟨b, s', bs, rfl, hr, rfl⟩

theorem run_append {s'' : σ} {ys : List α} {bs : List β} :
    ∀ {xs : List α} {s s' : σ} {as : List β}, run step s xs = .ok (as, s') → run step s' ys = .ok (bs, s'') →
      run step s (xs ++ ys) = .ok (as ++ bs, s'')
  | [], s, s', as, h, h' => by
    cases h
    exact h'
  | x :: xs, s, s', as, h, h' => by
    obtain ⟨b, t, cs, hstep, hrun, rfl⟩ := of_run_cons h
    rw [append_assoc]
    exact run_cons hstep (run_append hrun h')

theorem run_map {γ : Type} (step : σ → α → Except ε (Option β × σ)) (step' : σ → γ → Except ε (Option β × σ))
    (f : γ → α) : ∀ {l : List γ} (s : σ), (∀ x ∈ l, ∀ s, step' s x = step s (f x)) → run step' s l = run step s (l.map f)
  | [], _, _ => rfl
  | x :: l, s, h => by
    have ih : ∀ s, run step' s l = run step s (l.map f) := fun s =>
      run_map step step' f s fun y hy => h y (mem_cons_of_mem _ hy)
    rw [run, map_cons, run, h x mem_cons_self s]
    simp only [ih]

/-- What the first machine emits goes into the second. -/
def piped {γ τ : Type} (first : σ → α → Except ε (Option β × σ)) (second : τ → β → Except ε (Option γ × τ))
    (s : σ × τ) (a : α) : Except ε (Option γ × σ × τ) := do
  let (emitted, t) ← first s.1 a
  match emitted with
  | none => .ok (none, t, s.2)
  | some b => do
    let (emitted, u) ← second s.2 b
    .ok (emitted, t, u)

/-- **One machine after the other.** -/
theorem run_piped {γ τ : Type} {first : σ → α → Except ε (Option β × σ)} {second : τ → β → Except ε (Option γ × τ)} :
    ∀ {as : List α} {s s' : σ} {t t' : τ} {bs : List β} {cs : List γ}, run first s as = .ok (bs, s') →
      run second t bs = .ok (cs, t') → run (piped first second) (s, t) as = .ok (cs, s', t')
  | [], s, s', t, t', bs, cs, h, h' => by
    cases h
    cases h'
    rfl
  | a :: as, s, s', t, t', bs, cs, h, h' => by
    obtain ⟨b, s₁, bs', hstep, hrun, rfl⟩ := of_run_cons h
    cases b with
    | none =>
      have hpiped : piped first second (s, t) a = .ok (none, s₁, t) := by
        unfold piped
        rw [hstep]
        rfl
      exact run_cons hpiped (run_piped hrun h')
    | some b =>
      obtain ⟨c, t₁, cs', hstep', hrun', rfl⟩ := of_run_cons h'
      have hpiped : piped first second (s, t) a = .ok (c, s₁, t₁) := by
        unfold piped
        rw [hstep]
        change Except.bind (second t b) _ = _
        rw [hstep']
        rfl
      exact run_cons hpiped (run_piped hrun hrun')

variable [DecidableEq κ]

/-- What belongs to a key, in order. -/
def ofKey (k : κ) (l : List (κ × α)) : List α := (l.filter fun x => x.1 = k).map Prod.snd

theorem ofKey_cons (k : κ) (x : κ × α) (l : List (κ × α)) :
    ofKey k (x :: l) = if x.1 = k then x.2 :: ofKey k l else ofKey k l := by
  unfold ofKey
  by_cases h : x.1 = k
  · rw [filter_cons_of_pos (by simpa using h), if_pos h, map_cons]
  · rw [filter_cons_of_neg (by simpa using h), if_neg h]

theorem ofKey_append (k : κ) (l l' : List (κ × α)) : ofKey k (l ++ l') = ofKey k l ++ ofKey k l' := by
  rw [ofKey, filter_append, map_append]
  rfl

/-- The machine of the input's key takes it. -/
def routed (step : σ → α → Except ε (Option β × σ)) (s : κ → σ) (x : κ × α) :
    Except ε (Option (κ × β) × (κ → σ)) := do
  let (emitted, t) ← step (s x.1) x.2
  .ok (emitted.map fun b => (x.1, b), Function.update s x.1 t)

/-- **Machines that take their own inputs without a failure take the interleaved ones.** -/
theorem run_routed : ∀ {l : List (κ × α)} {s s' : κ → σ} {out : κ → List β},
    (∀ k, run step (s k) (ofKey k l) = .ok (out k, s' k)) →
      ∃ emitted, run (routed step) s l = .ok (emitted, s') ∧ ∀ k, ofKey k emitted = out k
  | [], s, s', out, h => by
    have hnil : ∀ k, [] = out k ∧ s k = s' k := fun k => Prod.mk.inj (Except.ok.inj (h k))
    have hs : s = s' := funext fun k => (hnil k).2
    exact ⟨[], by rw [hs]; rfl, fun k => (hnil k).1⟩
  | (k, a) :: l, s, s', out, h => by
    have hk := h k
    rw [ofKey_cons, if_pos rfl] at hk
    obtain ⟨b, t, bs, hstep, hrun, hout⟩ := of_run_cons hk
    have hrest : ∀ j, run step (Function.update s k t j) (ofKey j l) = .ok (Function.update out k bs j, s' j) := by
      intro j
      by_cases hj : j = k
      · subst hj
        rw [Function.update_self, Function.update_self]
        exact hrun
      · have hother := h j
        rw [ofKey_cons, if_neg (Ne.symm hj)] at hother
        rw [Function.update_of_ne hj, Function.update_of_ne hj]
        exact hother
    obtain ⟨emitted, hemitted, hof⟩ := run_routed hrest
    have hroute : routed step s (k, a) = .ok (b.map fun b => (k, b), Function.update s k t) := by
      unfold routed
      rw [hstep]
      rfl
    refine ⟨_, run_cons hroute hemitted, fun j => ?_⟩
    rw [ofKey_append, hof]
    by_cases hj : j = k
    · subst hj
      rw [hout]
      cases b <;> simp [ofKey]
    · rw [Function.update_of_ne hj]
      cases b <;> simp [ofKey, Ne.symm hj]

end Machine
end Farland
