/-
# Frames of a byte stream

A session that reads whole frames from a stream which arrives in pieces. What
has come in waits until `frame` knows the size of the first frame and that
many elements are there; the frame is then handled and the loop goes on, until
the session is over. What is left at that moment goes to `leave`, what comes
later to `late`.

If `frame` never changes its mind when more arrives, the pieces do not matter:
receiving one piece after another is receiving their concatenation
(`receive_append`, `receiveAll_eq`).
-/
import Mathlib.Tactic

namespace Farland

open List

/-- How a session cuts the stream into frames and what it does with them. -/
structure Framing (α σ ε : Type) where
  /-- The size of the frame at the front, `none` while it is not known. -/
  frame : List α → Except ε (Option ℕ)
  /-- One whole frame. -/
  handle : List α → σ → σ
  /-- The front is not the start of a frame. -/
  spoil : ε → σ → σ
  isOpen : σ → Bool
  /-- The session is over; what is unread. -/
  leave : σ → List α → σ
  /-- What arrives after the session is over. -/
  late : σ → List α → σ

namespace Framing

variable {α σ ε : Type} (F : Framing α σ ε)

/-- What is found at the front of a stream stays when more arrives. -/
structure Lawful : Prop where
  pos : ∀ {s n}, F.frame s = .ok (some n) → 0 < n
  append : ∀ {s n} (more : List α), F.frame s = .ok (some n) → F.frame (s ++ more) = .ok (some n)
  error_append : ∀ {s e} (more : List α), F.frame s = .error e → F.frame (s ++ more) = .error e
  spoil_closed : ∀ e s, F.isOpen (F.spoil e s) = false
  leave_closed : ∀ {s} (rest : List α), F.isOpen s = false → F.isOpen (F.leave s rest) = false
  late_closed : ∀ {s} (more : List α), F.isOpen s = false → F.isOpen (F.late s more) = false
  late_spoil : ∀ e s (more : List α), F.late (F.spoil e s) more = F.spoil e s
  late_leave : ∀ {s} (rest more : List α), F.isOpen s = false → F.late (F.leave s rest) more = F.leave s (rest ++ more)
  late_late : ∀ {s} (rest more : List α), F.isOpen s = false → F.late (F.late s rest) more = F.late s (rest ++ more)

/-- A session and what it has not read yet. -/
structure Buffered (α σ : Type) where
  session : σ
  input : List α := []
  deriving DecidableEq

/-- Whole frames, as long as there are any; a frame is not empty, so `fuel` is the size of the input. -/
def pump : ℕ → σ → List α → Buffered α σ
  | 0, s, input => ⟨s, input⟩
  | fuel + 1, s, input =>
    if F.isOpen s = false then ⟨F.leave s input, []⟩
    else match F.frame input with
      | .error e => ⟨F.spoil e s, []⟩
      | .ok none => ⟨s, input⟩
      | .ok (some n) =>
        if input.length < n then ⟨s, input⟩ else pump fuel (F.handle (input.take n) s) (input.drop n)

def drain (s : σ) (input : List α) : Buffered α σ := F.pump (input.length + 1) s input

/-- One piece of the stream. -/
def receive (b : Buffered α σ) (piece : List α) : Buffered α σ :=
  if F.isOpen b.session then F.drain b.session (b.input ++ piece) else ⟨F.late b.session piece, b.input⟩

def receiveAll (b : Buffered α σ) (pieces : List (List α)) : Buffered α σ := pieces.foldl F.receive b

variable {F}

theorem pump_closed {s : σ} (h : F.isOpen s = false) (fuel : ℕ) (input : List α) :
    F.pump (fuel + 1) s input = ⟨F.leave s input, []⟩ := by
  rw [pump, if_pos h]

/-- Fuel beyond the size of the input is not used. -/
theorem pump_fuel (hF : F.Lawful) : ∀ (fuel : ℕ) (s : σ) (input : List α), input.length < fuel →
    F.pump fuel s input = F.drain s input
  | 0, _, _, h => absurd h (by omega)
  | fuel + 1, s, input, h => by
    unfold drain pump
    by_cases hopen : F.isOpen s = false
    · rw [if_pos hopen, if_pos hopen]
    · rw [if_neg hopen, if_neg hopen]
      rcases hf : F.frame input with e | _ | n
      · rfl
      · rfl
      · by_cases hn : input.length < n
        · simp only [if_pos hn]
        · have hpos := hF.pos hf
          have hlen : (input.drop n).length < input.length := by
            rw [length_drop]
            omega
          simp only [if_neg hn]
          rw [pump_fuel hF fuel _ _ (by omega), pump_fuel hF input.length _ _ hlen]

/-- One round of the loop. -/
theorem drain_eq (hF : F.Lawful) (s : σ) (input : List α) : F.drain s input =
    if F.isOpen s = false then ⟨F.leave s input, []⟩
    else match F.frame input with
      | .error e => ⟨F.spoil e s, []⟩
      | .ok none => ⟨s, input⟩
      | .ok (some n) =>
        if input.length < n then ⟨s, input⟩ else F.drain (F.handle (input.take n) s) (input.drop n) := by
  rw [drain, pump]
  by_cases hopen : F.isOpen s = false
  · rw [if_pos hopen, if_pos hopen]
  · rw [if_neg hopen, if_neg hopen]
    rcases hf : F.frame input with e | _ | n
    · rfl
    · rfl
    · by_cases hn : input.length < n
      · simp only [if_pos hn]
      · have hpos := hF.pos hf
        simp only [if_neg hn]
        exact pump_fuel hF _ _ _ (by rw [length_drop]; omega)

/-- What holds of the session and is kept by every frame holds at the end of the loop. -/
theorem drain_induction (hF : F.Lawful) {P : σ → Prop} (hleave : ∀ s rest, P s → F.isOpen s = false →
    P (F.leave s rest))
    (hspoil : ∀ s e, P s → P (F.spoil e s)) (hhandle : ∀ s frame, P s → F.isOpen s = true → P (F.handle frame s))
    (s : σ) (input : List α) (h : P s) : P (F.drain s input).session := by
  induction hlen : input.length using Nat.strongRecOn generalizing s input with
  | ind len ih =>
    rw [drain_eq hF]
    by_cases hopen : F.isOpen s = false
    · rw [if_pos hopen]
      exact hleave s input h hopen
    · rw [if_neg hopen]
      rcases hf : F.frame input with e | _ | n
      · exact hspoil s e h
      · exact h
      · by_cases hn : input.length < n
        · simp only [if_pos hn]
          exact h
        · have hpos := hF.pos hf
          simp only [if_neg hn]
          exact ih _ (by rw [length_drop]; omega) _ _ (hhandle s _ h (by simpa using hopen)) rfl

theorem receive_induction (hF : F.Lawful) {P : σ → Prop} (hleave : ∀ s rest, P s → F.isOpen s = false →
    P (F.leave s rest))
    (hlate : ∀ s rest, P s → F.isOpen s = false → P (F.late s rest)) (hspoil : ∀ s e, P s → P (F.spoil e s))
    (hhandle : ∀ s frame, P s → F.isOpen s = true → P (F.handle frame s)) (b : Buffered α σ) (piece : List α)
    (h : P b.session) : P (F.receive b piece).session := by
  unfold receive
  by_cases hopen : F.isOpen b.session
  · rw [if_pos hopen]
    exact drain_induction hF hleave hspoil hhandle _ _ h
  · rw [if_neg hopen]
    exact hlate _ _ h (by simpa using hopen)

/-- Draining the front first changes nothing. -/
theorem drain_append (hF : F.Lawful) (s : σ) (input more : List α) :
    F.drain s (input ++ more) = F.receive (F.drain s input) more := by
  induction hlen : input.length using Nat.strongRecOn generalizing s input with
  | ind len ih =>
    rw [drain_eq hF s input]
    by_cases hopen : F.isOpen s = false
    · rw [if_pos hopen, drain, pump_closed hopen, receive, if_neg (by simp [hF.leave_closed _ hopen])]
      simp [hF.late_leave _ _ hopen]
    · rw [if_neg hopen]
      have hs : F.isOpen s = true := by simpa using hopen
      rcases hf : F.frame input with e | _ | n
      · rw [drain_eq hF, if_neg hopen, hF.error_append more hf, receive, if_neg (by simp [hF.spoil_closed])]
        simp [hF.late_spoil]
      · rw [receive, if_pos hs]
      · by_cases hn : input.length < n
        · simp only [if_pos hn]
          rw [receive, if_pos hs]
        · have hpos := hF.pos hf
          have hnm : ¬ (input ++ more).length < n := by simp; omega
          rw [drain_eq hF, if_neg hopen, hF.append more hf]
          simp only [if_neg hn, if_neg hnm]
          rw [take_append_of_le_length (by omega), drop_append_of_le_length (by omega)]
          exact ih _ (by rw [length_drop]; omega) _ _ rfl

/-- **Two pieces are one piece.** -/
theorem receive_append (hF : F.Lawful) (b : Buffered α σ) (xs ys : List α) :
    F.receive (F.receive b xs) ys = F.receive b (xs ++ ys) := by
  by_cases hopen : F.isOpen b.session
  · calc F.receive (F.receive b xs) ys
        = F.receive (F.drain b.session (b.input ++ xs)) ys := by rw [receive.eq_1 F b xs, if_pos hopen]
      _ = F.drain b.session (b.input ++ xs ++ ys) := (drain_append hF _ _ _).symm
      _ = F.receive b (xs ++ ys) := by rw [receive, if_pos hopen, append_assoc]
  · have hclosed : F.isOpen b.session = false := by simpa using hopen
    have hlate : ¬ F.isOpen (F.late b.session xs) = true := by simp [hF.late_closed xs hclosed]
    simp only [receive, if_neg hopen, if_neg hlate, hF.late_late xs ys hclosed]

/-- **However the stream is cut, the session ends up the same.** -/
theorem receiveAll_eq (hF : F.Lawful) : ∀ (pieces : List (List α)) (b : Buffered α σ), F.receive b [] = b →
    F.receiveAll b pieces = F.receive b pieces.flatten
  | [], b, h => h.symm
  | piece :: rest, b, h => by
    have hsettled : F.receive (F.receive b piece) [] = F.receive b piece := by
      rw [receive_append hF, append_nil]
    calc F.receiveAll b (piece :: rest) = F.receiveAll (F.receive b piece) rest := rfl
      _ = F.receive (F.receive b piece) rest.flatten := receiveAll_eq hF rest _ hsettled
      _ = F.receive b (piece :: rest).flatten := by rw [receive_append hF, flatten_cons]

end Framing
end Farland
