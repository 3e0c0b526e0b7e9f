/-
# Little-endian integers

`leBytes n v` is the low `n` bytes of `v`, least significant first, and
`leValue` the number a byte string stands for in that order. Writing and
reading back gives `v` modulo `256 ^ n` (`leValue_leBytes`), which is the
conversion to an `n`-byte unsigned type.
-/
import Mathlib.Tactic

namespace Farland
namespace LittleEndian

/-- The `n` low bytes of `v`, least significant first. -/
def leBytes : ℕ → ℕ → List UInt8
  | 0, _ => []
  | n + 1, v => UInt8.ofNat v :: leBytes n (v >>> 8)

/-- The number whose bytes, least significant first, are `bs`. -/
def leValue : List UInt8 → ℕ
  | [] => 0
  | b :: bs => b.toNat + 256 * leValue bs

@[simp] theorem leBytes_length : ∀ n v : ℕ, (leBytes n v).length = n
  | 0, _ => rfl
  | n + 1, v => by simp [leBytes, leBytes_length n]

theorem leValue_leBytes : ∀ n v : ℕ, leValue (leBytes n v) = v % 256 ^ n
  | 0, v => by simp [leBytes, leValue, Nat.mod_one]
  | n + 1, v => by
    rw [leBytes, leValue, leValue_leBytes n, UInt8.toNat_ofNat', Nat.shiftRight_eq_div_pow,
      pow_succ' 256 n, Nat.mod_mul]

theorem leValue_lt : ∀ bs : List UInt8, leValue bs < 256 ^ bs.length
  | [] => by simp [leValue]
  | b :: bs => by
    have h := leValue_lt bs
    have hb : b.toNat < 256 := b.toNat_lt
    rw [leValue, List.length_cons, pow_succ]
    omega

/-- The low bytes of a value are the first bytes of the string. -/
theorem leBytes_leValue : ∀ (n : ℕ) (bs : List UInt8), n ≤ bs.length → leBytes n (leValue bs) = bs.take n
  | 0, _, _ => rfl
  | n + 1, [], h => absurd h (by simp)
  | n + 1, b :: bs, h => by
    have hb : b.toNat < 256 := b.toNat_lt
    have hdiv : (b.toNat + 256 * leValue bs) >>> 8 = leValue bs := by
      omega
    have hmod : UInt8.ofNat (b.toNat + 256 * leValue bs) = b := by
      refine UInt8.toNat_inj.mp ?_
      rw [UInt8.toNat_ofNat']
      omega
    rw [leBytes, leValue, hdiv, hmod, leBytes_leValue n bs (by simpa using h), List.take_succ_cons]

theorem leBytes_mod : ∀ n v : ℕ, leBytes n (v % 256 ^ n) = leBytes n v
  | 0, _ => rfl
  | n + 1, v => by
    have hpow : 0 < 256 ^ n := Nat.pow_pos (by decide)
    have h1 : UInt8.ofNat (v % 256 ^ (n + 1)) = UInt8.ofNat v := by
      refine UInt8.toNat_inj.mp ?_
      rw [UInt8.toNat_ofNat', UInt8.toNat_ofNat', pow_succ', Nat.mod_mul_right_mod]
    rw [leBytes, leBytes, h1, Nat.shiftRight_eq_div_pow, Nat.shiftRight_eq_div_pow, pow_succ',
      Nat.mod_mul_right_div_self, leBytes_mod n]

/-- Strings whose values agree below `256 ^ n` start with the same `n` bytes. -/
theorem take_eq_of_leValue_mod {n : ℕ} {a b : List UInt8} (ha : n ≤ a.length) (hb : n ≤ b.length)
    (h : leValue a % 256 ^ n = leValue b % 256 ^ n) : a.take n = b.take n := by
  rw [← leBytes_leValue n a ha, ← leBytes_leValue n b hb, ← leBytes_mod n (leValue a), h, leBytes_mod]

end LittleEndian
end Farland
