/-
# The multipoint communication service

The PER-encoded Send Data Indication of T.125 (`proto/mcs.cpp`), around all that
the server sends.

Key theorem: `encodeSendDataIndication_some`.
-/
import Farland.Base.Per

namespace Farland
namespace Proto
namespace Mcs

def userIdBase : ℕ := 1001
def ioChannelId : ℕ := 1003
def serverChannelId : ℕ := 1002

def header (choice : ℕ) (lowBits : ℕ := 0) : List UInt8 := Writer.u8 (choice <<< 2 ||| lowBits)

def encodeSendDataIndication (initiator channelId : ℕ) (data : List UInt8) : Option (List UInt8) := do
  let user ← Per.writeInteger16 initiator userIdBase
  let channel ← Per.writeInteger16 channelId 0
  let length ← Per.writeLength data.length
  pure (header 26 ++ user ++ channel ++ Writer.u8 0x70 ++ length ++ data)

/-- **Data that fits a PER length is written.** -/
theorem encodeSendDataIndication_some {initiator channelId : ℕ} {data : List UInt8} (h : userIdBase ≤ initiator)
    (hdata : data.length ≤ Per.maxLength) :
    ∃ xs, encodeSendDataIndication initiator channelId data = some xs ∧ xs.length ≤ data.length + 8 := by
  obtain ⟨user, huser, hlen1⟩ := Per.writeInteger16_some h
  obtain ⟨channel, hchannel, hlen2⟩ := Per.writeInteger16_some (Nat.zero_le channelId)
  obtain ⟨length, hlength, hlen3⟩ := Per.writeLength_some hdata
  rw [encodeSendDataIndication, huser, hchannel, hlength]
  refine ⟨_, rfl, ?_⟩
  simp only [header, List.length_append, Writer.u8_length]
  omega

end Mcs
end Proto
end Farland
