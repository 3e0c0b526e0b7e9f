/-
# The ZGFX format

Variants and limits (`codec/zgfx.hpp`), and the bits of a token stream. The
stream is written byte-aligned at its start; only an unencoded run depends on
the bit position it is written at, because its bytes are aligned.
-/
import Farland.Codec.Zgfx.BitIO
import Farland.Lib.Lz77

namespace Farland
namespace Codec
namespace Zgfx

open Bits Lz77

def descriptorSingle : ℕ := 0xE0
def descriptorMultipart : ℕ := 0xE1
def compressionTypeMask : ℕ := 0x0F
def packetCompressed : ℕ := 0x20
def packetComprTypeRdp8 : ℕ := 0x04
def packetComprTypeRdp8Lite : ℕ := 0x06
def maxSegmentSize : ℕ := 65535
def historySize : ℕ := 2500000
def maxSegmentCount : ℕ := 65535
def liteMaxSegmentSize : ℕ := 8192
def liteHistorySize : ℕ := 8192
def defaultMaxOutputSize : ℕ := 64 <<< 20

inductive ZgfxVariant where
  | rdp8
  | rdp8Lite
  deriving DecidableEq

/-- Compressing, or storing every segment raw. -/
inductive ZgfxMode where
  | compress
  | store
  deriving DecidableEq

structure Params where
  history : ℕ
  maxSegment : ℕ
  type : ℕ
  deriving DecidableEq

def params : ZgfxVariant → Params
  | .rdp8Lite => ⟨liteHistorySize, liteMaxSegmentSize, packetComprTypeRdp8Lite⟩
  | .rdp8 => ⟨historySize, maxSegmentSize, packetComprTypeRdp8⟩

/-- Largest input one `compress` call accepts. -/
def zgfxMaxInputSize : ZgfxVariant → ℕ
  | .rdp8 => maxSegmentSize * maxSegmentCount
  | .rdp8Lite => liteMaxSegmentSize

/-- A segment fits the history, and a distance in the history fits the code. -/
theorem params_bounds (v : ZgfxVariant) : 1 ≤ (params v).maxSegment ∧ (params v).maxSegment ≤ 65535 ∧
    (params v).maxSegment ≤ (params v).history ∧ (params v).history < maxDistance := by
  cases v <;> decide

/-- The type nibble stands alone in a raw header and beside `packetCompressed`
in a compressed one. -/
theorem params_type (v : ZgfxVariant) : (params v).type < 256 ∧
    (params v).type &&& compressionTypeMask = (params v).type ∧
    (params v).type &&& packetCompressed = 0 ∧
    ((params v).type ||| packetCompressed) < 256 ∧
    ((params v).type ||| packetCompressed) &&& compressionTypeMask = (params v).type ∧
    ((params v).type ||| packetCompressed) &&& packetCompressed ≠ 0 := by
  cases v <;> decide

/-! ### The bits of a token stream -/

def maxRun : ℕ := 32767
def runHeaderBits : ℕ := 5 + 5 + 15

/-- Distance token 0 and a 15-bit count. -/
def runHeader (count : ℕ) : List Bool :=
  let zero := matchTokens.getD 0 noToken
  ofNat zero.prefixLength zero.prefixBits ++ ofNat zero.valueBits 0 ++ ofNat 15 count

@[simp] theorem runHeader_length (count : ℕ) : (runHeader count).length = runHeaderBits := by
  rfl

/-- The bits of a token written at bit position `p`. -/
def wire (p : ℕ) : Tok UInt8 → List Bool
  | .lit b => (literalCode b).wire
  | .run bs => runHeader bs.length ++ BitWriter.padding (p + runHeaderBits) ++ ofBytes bs
  | .copy d n => (distanceCode d).token.wire ++ (distanceCode d).value.wire ++ (lengthCode n).wire

def wires : ℕ → List (Tok UInt8) → List Bool
  | _, [] => []
  | p, t :: ts => wire p t ++ wires (p + (wire p t).length) ts

/-- The tokens the code can express. -/
def Valid : Tok UInt8 → Prop
  | .lit _ => True
  | .run bs => bs.length ≤ maxRun
  | .copy d n => 1 ≤ d ∧ d < maxDistance ∧ minMatch ≤ n ∧ n ≤ maxMatch

/-- The distances of a stream stay within the history. -/
def Near (history : ℕ) : Tok UInt8 → Prop
  | .copy distance _ => distance ≤ history
  | _ => True

theorem wires_append : ∀ (p : ℕ) (ts us : List (Tok UInt8)),
    wires p (ts ++ us) = wires p ts ++ wires (p + (wires p ts).length) us
  | _, [], _ => rfl
  | p, t :: ts, us => by
    rw [List.cons_append, wires, wires, wires_append _ ts us, List.append_assoc, List.length_append, Nat.add_assoc]

theorem wires_one (p : ℕ) (t : Tok UInt8) : wires p [t] = wire p t := by simp [wires]

theorem padding_length (n : ℕ) : (n + (BitWriter.padding n).length) % 8 = 0 := by
  rw [BitWriter.padding, List.length_replicate]
  omega

end Zgfx
end Codec
end Farland
