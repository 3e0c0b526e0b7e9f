/-
# RemoteFX numbers

What `rfx_common.hpp` shares between encoder and decoder of the coefficients:
16-bit arithmetic that wraps around.
-/
import Farland.Base.Reader

namespace Farland
namespace Codec
namespace Rfx

/-- The conversion to `int16_t`, modulo 2^16. -/
def wrap16 (v : ℤ) : ℤ := (v + 2 ^ 15) % 2 ^ 16 - 2 ^ 15

/-- A value an `int16_t` can have. -/
def IsInt16 (v : ℤ) : Prop := -32768 ≤ v ∧ v ≤ 32767

instance (v : ℤ) : Decidable (IsInt16 v) := inferInstanceAs (Decidable (_ ∧ _))

theorem wrap16_of_isInt16 {v : ℤ} (h : IsInt16 v) : wrap16 v = v := by
  unfold IsInt16 at h
  unfold wrap16
  omega

theorem wrap16_eq_iff {a b : ℤ} : wrap16 a = wrap16 b ↔ (2 ^ 16 : ℤ) ∣ a - b := by
  unfold wrap16
  omega

/-- `std::clamp`. -/
def clampTo (lo hi v : ℤ) : ℤ := max lo (min v hi)

end Rfx
end Codec
end Farland
