/-
# The transport framing

RDP interleaves two framings on one stream (`proto/framing.cpp`): TPKT, whose
first octet is 3, and fast-path, whose first octet has its low two bits clear.
`peekFrame` finds the size of the PDU at the front from at most four bytes.
Inside a TPKT stands an X.224 TPDU (`proto/x224.cpp`); after the connection is
set up it is a Data TPDU.

Key theorems: `peekFrame_append`, `dataTpdu_some`.
-/
import Farland.Base.ReadBack

namespace Farland
namespace Proto

inductive FrameKind where
  | tpkt
  | fastpath
  deriving DecidableEq

structure FrameInfo where
  kind : FrameKind
  /-- Total PDU length, headers included. -/
  length : ℕ
  deriving DecidableEq

def tpktHeaderSize : ℕ := 4
def maxTpktSize : ℕ := 0xFFFF

/-- The TPKT length in octets 2 and 3. -/
def peekTpkt : List UInt8 → Result (Option FrameInfo)
  | _ :: _ :: high :: low :: _ =>
    if high.toNat <<< 8 ||| low.toNat < tpktHeaderSize + 3 then
      fail .invalidLength "TPKT shorter than the smallest X.224 TPDU" 2
    else .ok (some ⟨.tpkt, high.toNat <<< 8 ||| low.toNat⟩)
  | _ => .ok none

/-- [MS-RDPBCGR] 2.2.8.1.2: length1, and length2 when the top bit of length1 is set. -/
def peekFastpath : List UInt8 → Result (Option FrameInfo)
  | _ :: length1 :: rest =>
    if length1.toNat &&& 0x80 = 0 then
      if length1.toNat < 2 then fail .invalidLength "fast-path PDU shorter than its header" 1
      else .ok (some ⟨.fastpath, length1.toNat⟩)
    else match rest with
      | length2 :: _ =>
        if (length1.toNat &&& 0x7F) <<< 8 ||| length2.toNat < 3 then
          fail .invalidLength "fast-path PDU shorter than its header" 1
        else .ok (some ⟨.fastpath, (length1.toNat &&& 0x7F) <<< 8 ||| length2.toNat⟩)
      | [] => .ok none
  | _ => .ok none

/-- The next PDU's framing, `none` until enough bytes have arrived to know it. -/
def peekFrame : List UInt8 → Result (Option FrameInfo)
  | [] => .ok none
  | first :: rest =>
    if first.toNat = 0x03 then peekTpkt (first :: rest)
    else if first.toNat &&& 0x03 = 0 then peekFastpath (first :: rest)
    else fail .invalidValue "neither a TPKT nor a fast-path PDU" 0

/-! ### The front of a growing stream -/

theorem peekTpkt_append (more : List UInt8) : ∀ xs : List UInt8,
    peekTpkt xs = .ok none ∨ peekTpkt (xs ++ more) = peekTpkt xs
  | [] => .inl rfl
  | [_] => .inl rfl
  | [_, _] => .inl rfl
  | [_, _, _] => .inl rfl
  | _ :: _ :: _ :: _ :: _ => .inr rfl

theorem peekFastpath_append (more : List UInt8) : ∀ xs : List UInt8,
    peekFastpath xs = .ok none ∨ peekFastpath (xs ++ more) = peekFastpath xs
  | [] => .inl rfl
  | [_] => .inl rfl
  | [_, length1] => by
    simp only [peekFastpath, List.cons_append]
    by_cases hshort : length1.toNat &&& 0x80 = 0
    · rw [if_pos hshort, if_pos hshort]
      exact .inr rfl
    · rw [if_neg hshort]
      exact .inl rfl
  | _ :: _ :: _ :: _ => .inr rfl

/-- **What was found at the front stays when more arrives.** -/
theorem peekFrame_append (xs more : List UInt8) :
    peekFrame xs = .ok none ∨ peekFrame (xs ++ more) = peekFrame xs := by
  cases xs with
  | nil => exact .inl rfl
  | cons first xs =>
    simp only [peekFrame, List.cons_append]
    split_ifs
    · exact peekTpkt_append more (first :: xs)
    · exact peekFastpath_append more (first :: xs)
    · exact .inr rfl

/-! ### Inside a TPKT -/

inductive TpduCode where
  | connectionRequest
  | connectionConfirm
  | disconnectRequest
  | data
  deriving DecidableEq

def TpduCode.value : TpduCode → ℕ
  | .connectionRequest => 0xE0
  | .connectionConfirm => 0xD0
  | .disconnectRequest => 0x80
  | .data => 0xF0

/-- Checks the TPKT header and returns a reader over the TPDU. -/
def readTpkt : Parse Reader := do
  let start ← Reader.at_
  let version ← Reader.u8
  if version ≠ 3 then Parse.fail .invalidValue "TPKT version is not 3" start
  else
    Reader.skip 1
    let length ← Reader.u16be
    if length < tpktHeaderSize + 3 then
      Parse.fail .invalidLength "TPKT shorter than the smallest X.224 TPDU" start
    else Reader.sub (length - tpktHeaderSize)

/-- The TPDU code behind the length indicator. -/
def readTpduCode (start : ℕ) : Parse TpduCode := do
  Reader.skip 1
  let code ← Reader.u8
  match code &&& 0xF0 with
  | 0xE0 => pure .connectionRequest
  | 0xD0 => pure .connectionConfirm
  | 0x80 => pure .disconnectRequest
  | 0xF0 => pure .data
  | _ => Parse.fail .unsupported "unknown X.224 TPDU code" (start + 1)

/-- The code of a TPDU, without consuming anything. -/
def peekTpduCode (tpdu : Reader) : Result TpduCode :=
  match readTpduCode tpdu.offset tpdu with
  | .ok (code, _) => .ok code
  | .error e => .error e

/-- `begin_data_tpdu` and `end_tpkt` around a payload. -/
def dataTpdu (payload : List UInt8) : Option (List UInt8) := do
  asserts (payload.length + 7 ≤ maxTpktSize)
  pure ([3, 0] ++ Writer.u16be (payload.length + 7) ++ Writer.u8 2 ++ Writer.u8 TpduCode.data.value ++
    Writer.u8 0x80 ++ payload)

theorem dataTpdu_some {payload : List UInt8} (h : payload.length + 7 ≤ maxTpktSize) :
    ∃ xs, dataTpdu payload = some xs ∧ xs.length = payload.length + 7 := by
  rw [dataTpdu, asserts, if_pos h]
  exact ⟨_, rfl, by simp; omega⟩

end Proto
end Farland
