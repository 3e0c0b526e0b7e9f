/-
# Bit strings, most significant bit first

A bit string is a `List Bool`. `ofNat n v` is the `n` low bits of `v`, the
first one the most significant, and `ofBytes` lists the bits of a byte string
in the order an MSB-first coder reads them. The lemmas say what shifts, `|||`
and `%` do to these lists, so that a coder that keeps its bits in an
accumulator (`drain`, left-aligned words) can be reasoned about as a plain
list of bits.

Key definitions: `ofNat`, `toNat`, `ofBytes`, `drain`.
Key theorems: `toNat_ofNat`, `ofNat_shiftLeft_or`, `ofNat_drain`,
`ofNat_or_shiftLeft`.
-/
import Mathlib.Tactic
import Mathlib.Data.Nat.Bitwise

namespace Farland
namespace Bits

open List Nat Bool

/-- The `n` low bits of `v`, most significant first. -/
def ofNat : ℕ → ℕ → List Bool
  | 0, _ => []
  | n + 1, v => v.testBit n :: ofNat n v

/-- The number whose binary digits, most significant first, are `bs`. -/
def toNat (bs : List Bool) : ℕ := bs.foldl (fun a b => 2 * a + b.toNat) 0

/-- The bits of a byte string. -/
def ofBytes (bs : List UInt8) : List Bool := bs.flatMap fun b => ofNat 8 b.toNat

/-! ### Bits of a number -/

@[simp] theorem ofNat_zero (v : ℕ) : ofNat 0 v = [] := rfl

@[simp] theorem ofNat_length : ∀ n v : ℕ, (ofNat n v).length = n
  | 0, _ => rfl
  | n + 1, v => by simp [ofNat, ofNat_length n]

theorem getElem?_ofNat : ∀ n v i : ℕ, (ofNat n v)[i]? = if i < n then some (v.testBit (n - 1 - i)) else none
  | 0, v, i => by simp
  | n + 1, v, 0 => by simp [ofNat]
  | n + 1, v, i + 1 => by
    rw [ofNat, getElem?_cons_succ, getElem?_ofNat n v i]
    by_cases h : i < n
    · rw [if_pos h, if_pos (by omega), show n - 1 - i = n + 1 - 1 - (i + 1) by omega]
    · rw [if_neg h, if_neg (by omega)]

/-- Two numbers whose low bits agree have the same bit string. -/
theorem ofNat_congr {n u v : ℕ} (h : ∀ i < n, u.testBit i = v.testBit i) : ofNat n u = ofNat n v := by
  induction n with
  | zero => rfl
  | succ n ih =>
    rw [ofNat, ofNat, h n (by omega), ih fun i hi => h i (by omega)]

theorem ofNat_mod {n m : ℕ} (h : n ≤ m) (v : ℕ) : ofNat n (v % 2 ^ m) = ofNat n v := ofNat_congr fun i hi => by
    rw [testBit_mod_two_pow]
    simp [show i < m by omega]

theorem ofNat_add (m n v : ℕ) : ofNat (m + n) v = ofNat m (v >>> n) ++ ofNat n v := by
  induction m with
  | zero => simp
  | succ m ih =>
    rw [show m + 1 + n = (m + n) + 1 by omega, ofNat, ih, ofNat, testBit_shiftRight, cons_append, Nat.add_comm n m]

/-- Appending `c` bits below the `p` low bits of an accumulator. -/
theorem ofNat_shiftLeft_or {c v : ℕ} (hv : v < 2 ^ c) (p acc : ℕ) :
    ofNat (p + c) ((acc <<< c) ||| v) = ofNat p acc ++ ofNat c v := by
  rw [ofNat_add]
  congr 1
  · refine ofNat_congr fun i _ => ?_
    rw [testBit_shiftRight, testBit_or,
      testBit_eq_false_of_lt (hv.trans_le (Nat.pow_le_pow_right (by omega) (show c ≤ c + i by omega)))]
    simp
  · refine ofNat_congr fun i hi => ?_
    simp [show ¬ c ≤ i by omega]

theorem ofNat_zero_right (n : ℕ) : ofNat n 0 = List.replicate n false := by
  induction n with
  | zero => rfl
  | succ n ih => rw [ofNat, ih, zero_testBit, replicate_succ]

/-! ### The number of a bit string -/

variable (bs : List Bool)

theorem foldl_toNat (a : ℕ) : bs.foldl (fun a b => 2 * a + b.toNat) a = a * 2 ^ bs.length + toNat bs := by
  induction bs generalizing a with
  | nil => simp [toNat]
  | cons b bs ih =>
    simp only [foldl_cons, length_cons, toNat]
    rw [ih, ih (2 * 0 + b.toNat)]
    ring

theorem toNat_cons (b : Bool) (bs : List Bool) : toNat (b :: bs) = b.toNat * 2 ^ bs.length + toNat bs := by
  rw [toNat, foldl_cons, foldl_toNat]
  simp

theorem toNat_append (a b : List Bool) : toNat (a ++ b) = toNat a * 2 ^ b.length + toNat b := by
  rw [toNat, foldl_append, foldl_toNat]
  rfl

theorem toNat_lt : toNat bs < 2 ^ bs.length := by
  induction bs with
  | nil => simp [toNat]
  | cons b bs ih =>
    rw [toNat_cons]
    cases b <;> simp <;> omega

theorem toNat_ofNat_mod (n v : ℕ) : toNat (ofNat n v) = v % 2 ^ n := by
  induction n with
  | zero => simp [toNat, mod_one]
  | succ n ih =>
    have hbit : (v.testBit n).toNat = v / 2 ^ n % 2 := by
      rw [testBit_eq_decide_div_mod_eq]
      rcases mod_two_eq_zero_or_one (v / 2 ^ n) with h | h <;> simp [h]
    rw [ofNat, toNat_cons, ih, ofNat_length, mod_pow_succ, hbit]
    ring

@[simp] theorem toNat_ofNat {n v : ℕ} (h : v < 2 ^ n) : toNat (ofNat n v) = v := by
  rw [toNat_ofNat_mod, mod_eq_of_lt h]

theorem ofNat_toNat : ofNat bs.length (toNat bs) = bs := by
  induction bs with
  | nil => rfl
  | cons b bs ih =>
    have hlt := toNat_lt bs
    rw [length_cons, ofNat, toNat_cons]
    congr 1
    · cases b
      · simp [testBit_eq_false_of_lt hlt]
      · rw [toNat_true, one_mul, testBit_two_pow_add_eq, testBit_eq_false_of_lt hlt]
        rfl
    · refine (ofNat_congr fun i hi => ?_).trans ih
      cases b
      · simp
      · rw [toNat_true, one_mul, testBit_two_pow_add_gt hi]

/-! ### Bytes -/

@[simp] theorem ofBytes_nil : ofBytes [] = [] := rfl

@[simp] theorem ofBytes_cons (b : UInt8) (bs : List UInt8) :
    ofBytes (b :: bs) = ofNat 8 b.toNat ++ ofBytes bs := by
  simp [ofBytes]

@[simp] theorem ofBytes_append (a b : List UInt8) : ofBytes (a ++ b) = ofBytes a ++ ofBytes b := by
  simp [ofBytes]

@[simp] theorem ofBytes_length (bs : List UInt8) : (ofBytes bs).length = 8 * bs.length := by
  induction bs with
  | nil => rfl
  | cons b bs ih => rw [ofBytes_cons, length_append, ih, ofNat_length, length_cons]; ring

theorem ofBytes_ofNat_byte (v : ℕ) : ofBytes [UInt8.ofNat v] = ofNat 8 v := by
  exact ofNat_mod (n := 8) (m := 8) le_rfl v

/-- Byte strings with the same bits are the same. -/
theorem ofBytes_injective : ∀ {a b : List UInt8}, ofBytes a = ofBytes b → a = b
  | [], [], _ => rfl
  | [], y :: ys, h => by have := congrArg List.length h; simp at this; omega
  | x :: xs, [], h => by have := congrArg List.length h; simp at this
  | x :: xs, y :: ys, h => by
    rw [ofBytes_cons, ofBytes_cons] at h
    obtain ⟨h1, h2⟩ := append_inj h (by simp)
    have hxy : x.toNat = y.toNat := by
      have := congrArg toNat h1
      rwa [toNat_ofNat x.toNat_lt, toNat_ofNat y.toNat_lt] at this
    rw [UInt8.toNat_inj.mp hxy, ofBytes_injective h2]

/-- Bits packed into bytes, the last one filled up with zeros. -/
def toBytes : List Bool → List UInt8
  | b7 :: b6 :: b5 :: b4 :: b3 :: b2 :: b1 :: b0 :: rest =>
    UInt8.ofNat (toNat [b7, b6, b5, b4, b3, b2, b1, b0]) :: toBytes rest
  | [] => []
  | bs => [UInt8.ofNat (toNat bs <<< (8 - bs.length))]

/-- What `toBytes` fills the last byte of `n` bits up with. -/
def filler (n : ℕ) : List Bool := List.replicate ((8 - n % 8) % 8) false

theorem ofBytes_toBytes : ofBytes (toBytes bs) = bs ++ filler bs.length := by
  induction bs using toBytes.induct with
  | case1 b7 b6 b5 b4 b3 b2 b1 b0 rest ih =>
    have hn : (rest.length + 8) % 8 = rest.length % 8 := by omega
    rw [toBytes, ofBytes_cons, ih, UInt8.toNat_ofNat', ofNat_mod (m := 8) le_rfl]
    rw [show (8 : ℕ) = [b7, b6, b5, b4, b3, b2, b1, b0].length from rfl, ofNat_toNat]
    simp [filler, hn]
  | case2 => rfl
  | case3 bs h1 h2 =>
    have hlt : bs.length < 8 := by
      by_contra hge
      match bs, hge with
      | b7 :: b6 :: b5 :: b4 :: b3 :: b2 :: b1 :: b0 :: rest, _ => exact h1 _ _ _ _ _ _ _ _ _ rfl
      | [], h | [_], h | [_, _], h | [_, _, _], h | [_, _, _, _], h | [_, _, _, _, _], h | [_, _, _, _, _, _], h
      | [_, _, _, _, _, _, _], h => simp at h
    have hpos : 0 < bs.length := length_pos_iff.mpr h2
    rw [toBytes.eq_3 bs h1 h2, ofBytes_ofNat_byte, filler, mod_eq_of_lt hlt, mod_eq_of_lt (by omega),
      ← ofNat_zero_right, ← or_zero (toNat bs <<< _)]
    conv_lhs => rw [show (8 : ℕ) = bs.length + (8 - bs.length) by omega]
    rw [show bs.length + (8 - bs.length) - bs.length = 8 - bs.length by omega,
      ofNat_shiftLeft_or (Nat.two_pow_pos _), ofNat_toNat]

theorem toBytes_length : (toBytes bs).length = (bs.length + 7) / 8 := by
  have h := congrArg List.length (ofBytes_toBytes bs)
  rw [ofBytes_length, length_append, filler, length_replicate] at h
  omega

/-! ### Writing through an accumulator -/

/-- Moves whole bytes out of the `pending` low bits of `acc`, highest first. -/
def drain (acc : ℕ) : ℕ → List UInt8 → List UInt8 × ℕ
  | p + 8, out => drain acc p (out ++ [UInt8.ofNat (acc >>> p)])
  | p, out => (out, p)

theorem drain_pending (acc p : ℕ) (out : List UInt8) : (drain acc p out).2 = p % 8 := by
  induction p, out using drain.induct acc with
  | case1 p out ih => rw [drain]; omega
  | case2 p out h =>
    rw [drain]
    · have : p < 8 := by
        by_contra hc
        exact h (p - 8) (by omega)
      omega
    · exact h

/-- Draining keeps the bits: those written and those still pending. -/
theorem ofNat_drain (acc p : ℕ) (out : List UInt8) :
    ofBytes (drain acc p out).1 ++ ofNat (drain acc p out).2 acc = ofBytes out ++ ofNat p acc := by
  induction p, out using drain.induct acc with
  | case1 p out ih =>
    rw [drain, ih, ofBytes_append, ofBytes_ofNat_byte, append_assoc, ← ofNat_add, Nat.add_comm 8 p]
  | case2 p out h => rw [drain]; exact h

/-! ### Reading from a left-aligned word -/

theorem take_ofNat {c n : ℕ} (h : c ≤ n) (v : ℕ) : (ofNat n v).take c = ofNat c (v >>> (n - c)) := by
  obtain ⟨d, rfl⟩ : ∃ d, n = c + d := ⟨n - c, by omega⟩
  rw [ofNat_add, take_append_of_le_length (by simp), Nat.add_sub_cancel_left, take_of_length_le (by simp)]

theorem drop_ofNat {c n : ℕ} (h : c ≤ n) (v : ℕ) : (ofNat n v).drop c = ofNat (n - c) v := by
  obtain ⟨d, rfl⟩ : ∃ d, n = c + d := ⟨n - c, by omega⟩
  rw [ofNat_add, Nat.add_sub_cancel_left, drop_append_of_le_length (by simp), drop_of_length_le (by simp), nil_append]

/-- Shifting an `n`-bit word left drops its first bits and fills with zeros. -/
theorem ofNat_shiftLeft_mod {c n : ℕ} (h : c ≤ n) (v : ℕ) :
    ofNat n ((v <<< c) % 2 ^ n) = (ofNat n v).drop c ++ List.replicate c false := by
  rw [ofNat_mod le_rfl, drop_ofNat h, ← ofNat_zero_right c]
  conv_lhs => rw [show n = (n - c) + c by omega, ← or_zero (v <<< c)]
  rw [ofNat_shiftLeft_or (Nat.two_pow_pos c)]

/-- Placing `b` below the `k` used bits of a left-aligned `n`-bit word. -/
theorem ofNat_or_shiftLeft {n k m v b : ℕ} {B : List Bool} (hB : B.length = k) (hn : k + m ≤ n)
    (hv : ofNat n v = B ++ List.replicate (n - k) false) (hb : b < 2 ^ m) :
    ofNat n (v ||| (b <<< (n - k - m))) = B ++ ofNat m b ++ List.replicate (n - k - m) false := by
  have hlow : ∀ i < n - k, v.testBit i = false := by
    intro i hi
    have h1 := congrArg (fun l => l[n - 1 - i]?) hv
    simp only [getElem?_ofNat] at h1
    rw [if_pos (by omega), getElem?_append_right (by omega), getElem?_replicate,
      if_pos (by omega), show n - 1 - (n - 1 - i) = i by omega] at h1
    simpa using h1
  obtain ⟨d, rfl⟩ : ∃ d, n = k + m + d := ⟨n - (k + m), by omega⟩
  have e1 : k + m + d - k - m = d := by omega
  rw [e1]
  rw [ofNat_add (k + m) d, ofNat_add k m]
  congr 1
  · congr 1
    · have h2 := congrArg (List.take k) hv
      rw [take_ofNat (by omega), take_append_of_le_length (by omega), take_of_length_le (by omega)] at h2
      rw [← h2]
      refine ofNat_congr fun i hi => ?_
      have hbz : b.testBit (m + i) = false :=
        testBit_eq_false_of_lt (hb.trans_le (Nat.pow_le_pow_right (by omega) (by omega)))
      simp only [testBit_shiftRight, testBit_or, testBit_shiftLeft]
      rw [show d + (m + i) - d = m + i by omega, hbz, show d + (m + i) = k + m + d - k + i by omega]
      simp
    · refine ofNat_congr fun i hi => ?_
      simp only [testBit_shiftRight, testBit_or]
      rw [hlow (d + i) (by omega)]
      simp
  · rw [← ofNat_zero_right]
    refine ofNat_congr fun i hi => ?_
    rw [testBit_or, hlow i (by omega)]
    simp [show ¬ d ≤ i by omega]

end Bits
end Farland
