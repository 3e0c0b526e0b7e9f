/-
# Packed encoding rules

What the server's PDUs use of PER (`base/per.cpp`): lengths of one or two octets
and integers relative to a minimum. An encoder asserts that its value fits;
`none` stands for the assertion that fails.

Key theorems: `writeLength_some`, `writeInteger16_some`.
-/
import Farland.Base.ReadBack

namespace Farland
namespace Per

/-- Largest length of the two-octet form. -/
def maxLength : ℕ := 0x3FFF

/-! ### Writing -/

def writeLength (length : ℕ) : Option (List UInt8) :=
  if length < 0x80 then some (Writer.u8 length)
  else do
    asserts (length ≤ maxLength)
    pure (Writer.u16be (0x8000 ||| length))

def writeInteger16 (value min : ℕ) : Option (List UInt8) := do
  asserts (value ≥ min)
  pure (Writer.u16be (value - min))

/-! ### What can be written -/

theorem writeLength_some {length : ℕ} (h : length ≤ maxLength) :
    ∃ xs, writeLength length = some xs ∧ xs.length ≤ 2 := by
  unfold writeLength
  by_cases hshort : length < 0x80
  · rw [if_pos hshort]
    exact ⟨_, rfl, by simp⟩
  · rw [if_neg hshort, asserts, if_pos h]
    exact ⟨_, rfl, by simp⟩

theorem writeInteger16_some {value min : ℕ} (h : min ≤ value) :
    ∃ xs, writeInteger16 value min = some xs ∧ xs.length = 2 := by
  rw [writeInteger16, asserts, if_pos h]
  exact ⟨_, rfl, by simp⟩

end Per
end Farland
