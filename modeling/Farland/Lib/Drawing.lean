/-
# Drawing on planes

A drawing writes to a family of planes, each a list with row after row, one
element after the other, and fails where one is out of range. `Paints` says of
a drawing that it never fails and which cells it writes with what; its rules
(`Paints.store`, `Paints.seq`, `Paints.each`) follow a program's text.

Key theorems: `Paints.over`, `Paints.eq`.
-/
import Mathlib.Data.List.Basic

namespace Farland
namespace Drawing

open List Option Nat

/-- The rows of each plane, and how long they are. -/
structure Shape (ι : Type) where
  stride : ι → ℕ
  height : ι → ℕ

structure Planes (α : Type) {ι : Type} (shape : Shape ι) where
  plane : ι → List α
  length_plane : ∀ p, (plane p).length = shape.height p * shape.stride p

variable {ι α β : Type} {shape : Shape ι}

/-- A cell of a plane, by its row and column. -/
def Planes.at (s : Planes α shape) (p : ι) (row col : ℕ) : Option α := (s.plane p)[row * shape.stride p + col]?

theorem Planes.ext {s t : Planes α shape} (h : ∀ p, s.plane p = t.plane p) : s = t := by
  obtain ⟨planes, _⟩ := s
  obtain ⟨planes', _⟩ := t
  obtain rfl : planes = planes' := funext h
  rfl

/-- Two cells of a plane stand at one index only if they are the same. -/
theorem index_inj {stride row row' col col' : ℕ} (hcol : col < stride) (hcol' : col' < stride)
    (h : row * stride + col = row' * stride + col') : row = row' ∧ col = col' := by
  have hrow (row : ℕ) {col : ℕ} (hcol : col < stride) : (row * stride + col) / stride = row := by
    rw [Nat.mul_comm, mul_add_div (by omega), div_eq_of_lt hcol, Nat.add_zero]
  have heq : row = row' := by rw [← hrow row hcol, h, hrow row' hcol']
  subst heq
  exact ⟨rfl, by omega⟩

theorem Planes.ext_at {s t : Planes α shape}
    (h : ∀ p row col, row < shape.height p → col < shape.stride p → s.at p row col = t.at p row col) : s = t := by
  refine Planes.ext fun p => ext_getElem? fun i => ?_
  by_cases hi : i < shape.height p * shape.stride p
  · have hstride : 0 < shape.stride p := Nat.pos_of_mul_pos_left (zero_lt_of_lt hi)
    have hcell := h p (i / shape.stride p) (i % shape.stride p)
      (Nat.div_lt_of_lt_mul (by rwa [Nat.mul_comm])) (mod_lt _ hstride)
    unfold Planes.at at hcell
    rwa [div_add_mod'] at hcell
  · rw [getElem?_eq_none (by rw [s.length_plane]; omega), getElem?_eq_none (by rw [t.length_plane]; omega)]

abbrev Draw (α : Type) (shape : Shape ι) := Planes α shape → Option (Planes α shape)

/-- A piece of a plane. -/
structure Span (ι : Type) where
  plane : ι
  start : ℕ
  size : ℕ

/-- `span[i] = a`; fails where the span leaves its plane, or `i` the span. -/
def store [DecidableEq ι] (d : Span ι) (i : ℕ) (a : α) : Draw α shape := fun s =>
  if d.start + d.size ≤ (s.plane d.plane).length ∧ i < d.size then
    some ⟨Function.update s.plane d.plane ((s.plane d.plane).set (d.start + i) a), fun p => by
      by_cases hp : p = d.plane
      · subst hp
        rw [Function.update_self, length_set, s.length_plane]
      · rw [Function.update_of_ne hp, s.length_plane]⟩
  else none

/-- `for (b : l) f(b);` -/
def each (l : List β) (f : β → Draw α shape) : Draw α shape := fun s => l.foldlM (fun s b => f b s) s

/-- On all planes the drawing writes the cells of `S`, each with what is wanted
there, and no others. -/
def Paints (S : ι → ℕ → ℕ → Prop) (want : ι → ℕ → ℕ → α) (x : Draw α shape) : Prop :=
  ∀ s, ∃ t, x s = some t ∧ ∀ p row col, row < shape.height p → col < shape.stride p →
    (S p row col → t.at p row col = some (want p row col)) ∧ (¬ S p row col → t.at p row col = s.at p row col)

variable {S T : ι → ℕ → ℕ → Prop} {want want' : ι → ℕ → ℕ → α} {x y : Draw α shape}

theorem Paints.none : Paints (fun _ _ _ => False) want (some : Draw α shape) :=
  fun s => ⟨s, rfl, fun _ _ _ _ _ => ⟨False.elim, fun _ => rfl⟩⟩

/-- The cells that a drawing writes, said otherwise. -/
theorem Paints.congr (h : Paints S want x)
    (hS : ∀ p row col, row < shape.height p → col < shape.stride p → (T p row col ↔ S p row col)) :
    Paints T want x := by
  intro s
  obtain ⟨t, hx, hcells⟩ := h s
  refine ⟨t, hx, fun p row col hrow hcol => ?_⟩
  rw [hS p row col hrow hcol]
  exact hcells p row col hrow hcol

/-- **A drawing over another** takes what it writes. -/
theorem Paints.over (hx : Paints S want x) (hy : Paints T want' y) {both : ι → ℕ → ℕ → α}
    (hT : ∀ p row col, T p row col → both p row col = want' p row col)
    (hS : ∀ p row col, S p row col → ¬ T p row col → both p row col = want p row col) :
    Paints (fun p row col => S p row col ∨ T p row col) both fun s => x s >>= y := by
  intro s
  obtain ⟨t, hxs, hcells⟩ := hx s
  obtain ⟨u, hyt, hcells'⟩ := hy t
  refine ⟨u, by simp only [hxs, bind_eq_bind, bind_some, hyt], fun p row col hrow hcol => ?_⟩
  obtain ⟨hin, hout⟩ := hcells p row col hrow hcol
  obtain ⟨hin', hout'⟩ := hcells' p row col hrow hcol
  by_cases hTc : T p row col
  · exact ⟨fun _ => by rw [hin' hTc, hT p row col hTc], fun hno => absurd (Or.inr hTc) hno⟩
  · refine ⟨fun hor => ?_, fun hno => (hout' hTc).trans (hout fun hSc => hno (Or.inl hSc))⟩
    have hSc := hor.resolve_right hTc
    rw [hout' hTc, hin hSc, hS p row col hSc hTc]

theorem Paints.seq (hx : Paints S want x) (hy : Paints T want y) :
    Paints (fun p row col => S p row col ∨ T p row col) want fun s => x s >>= y :=
  hx.over hy (fun _ _ _ _ => rfl) fun _ _ _ _ _ => rfl

theorem Paints.each {R : β → ι → ℕ → ℕ → Prop} {f : β → Draw α shape} :
    ∀ {l : List β}, (∀ b ∈ l, Paints (R b) want (f b)) →
    Paints (fun p row col => ∃ b ∈ l, R b p row col) want (each l f)
  | [], _ => Paints.none.congr fun p row col _ _ => by simp
  | b :: l, h => by
    have htail := Paints.each fun b' hb' => h b' (mem_cons_of_mem _ hb')
    refine ((h b mem_cons_self).seq htail).congr fun p row col _ _ => ?_
    simp only [mem_cons, exists_eq_or_imp]

/-- A span lies in a row of its plane. -/
structure Span.InRow (d : Span ι) (shape : Shape ι) (row left : ℕ) : Prop where
  start : d.start = row * shape.stride d.plane + left
  fit : left + d.size ≤ shape.stride d.plane
  row : row < shape.height d.plane

/-- The cells of a span. -/
def Span.cells (d : Span ι) (row left : ℕ) : ι → ℕ → ℕ → Prop := fun p r c =>
  p = d.plane ∧ r = row ∧ left ≤ c ∧ c < left + d.size

theorem Paints.store [DecidableEq ι] {d : Span ι} {i row left : ℕ} {a : α} (hd : d.InRow shape row left)
    (hi : i < d.size) (ha : a = want d.plane row (left + i)) :
    Paints (fun p r c => p = d.plane ∧ r = row ∧ c = left + i) want (Drawing.store d i a : Draw α shape) := by
  intro s
  have hstart : d.start + i = row * shape.stride d.plane + (left + i) := by rw [hd.start, Nat.add_assoc]
  have hcol : left + i < shape.stride d.plane := by
    have := hd.fit
    omega
  have hroom : d.start + d.size ≤ (s.plane d.plane).length := by
    calc d.start + d.size ≤ (row + 1) * shape.stride d.plane := by
          have := hd.fit
          rw [succ_mul]
          omega
      _ ≤ shape.height d.plane * shape.stride d.plane := Nat.mul_le_mul_right _ hd.row
      _ = (s.plane d.plane).length := (s.length_plane _).symm
  refine ⟨_, if_pos ⟨hroom, hi⟩, fun p r c _ hc => ⟨?_, fun hno => ?_⟩⟩
  · rintro ⟨rfl, rfl, rfl⟩
    simp only [Planes.at]
    rw [Function.update_self, hstart, getElem?_set_self (by rw [← hstart]; omega), ha]
  · simp only [Planes.at]
    by_cases hp : p = d.plane
    · subst hp
      rw [Function.update_self, getElem?_set_ne]
      rw [hstart]
      exact fun heq => hno ⟨rfl, (index_inj hc hcol heq.symm).1, (index_inj hc hcol heq.symm).2⟩
    · rw [Function.update_of_ne hp]

/-- A span written from its first element to its last. -/
theorem Paints.fill [DecidableEq ι] {d : Span ι} {row left : ℕ} {f : ℕ → Draw α shape} (hd : d.InRow shape row left)
    (hf : ∀ x < d.size, f x = Drawing.store d x (want d.plane row (left + x))) :
    Paints (d.cells row left) want (Drawing.each (List.range d.size) f) := by
  refine (Paints.each (R := fun x p r c => p = d.plane ∧ r = row ∧ c = left + x) fun x hx => ?_).congr ?_
  · rw [hf x (mem_range.mp hx)]
    exact Paints.store hd (mem_range.mp hx) rfl
  · refine fun p r c _ _ => ⟨?_, ?_⟩
    · rintro ⟨hp, hr, hlo, hhi⟩
      exact ⟨c - left, mem_range.mpr (by omega), hp, hr, by omega⟩
    · rintro ⟨x, hx, hp, hr, hc⟩
      have := mem_range.mp hx
      exact ⟨hp, hr, by omega, by omega⟩

/-- A drawing of something that is read first. -/
theorem Paints.using {e : Option β} {b : β} {f : β → Draw α shape} (he : e = some b) (h : Paints S want (f b)) :
    Paints S want fun s => e >>= fun b => f b s := by
  subst he
  exact h

/-- **Drawings that paint the same** are the same. -/
theorem Paints.eq (hx : Paints S want x) (hy : Paints S want y) (s : Planes α shape) : x s = y s := by
  obtain ⟨t, hxs, hcells⟩ := hx s
  obtain ⟨u, hys, hcells'⟩ := hy s
  rw [hxs, hys]
  congr 1
  refine Planes.ext_at fun p row col hrow hcol => ?_
  by_cases hS : S p row col
  · rw [(hcells p row col hrow hcol).1 hS, (hcells' p row col hrow hcol).1 hS]
  · rw [(hcells p row col hrow hcol).2 hS, (hcells' p row col hrow hcol).2 hS]

end Drawing
end Farland
