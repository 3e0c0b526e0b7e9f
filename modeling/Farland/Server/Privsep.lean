/-
# The privsep control channel

The messages between the sandboxed network process and the monitor
(`privsep.cpp`): a u32le length of what follows, a u8 message type, then the
fields. `encode` asserts the limits of the strings and blobs and of the whole
message, so it is partial (`none` is a failed assertion); `decode` refuses
what the limits exclude.

`encode_kerberosResponse_eq_none` says when an answer of the monitor cannot
be written.
-/
import Farland.Base.Reader

namespace Farland
namespace Server

/-- The NLA-authenticated user. -/
structure Identity where
  user : Text
  domain : Text
  deriving DecidableEq

/-- What pre-authentication negotiated. -/
structure Negotiation where
  cookie : Text
  requestedProtocols : ℕ
  selectedProtocol : ℕ
  identity : Option Identity
  deriving DecidableEq

/-- `proto::protocol`, [MS-RDPBCGR] 2.2.1.1.1. -/
def protocolHybrid : ℕ := 0x00000002
def protocolHybridEx : ℕ := 0x00000008

/-- HYBRID or HYBRID_EX. -/
def isNla (protocol : ℕ) : Bool := protocol == protocolHybrid || protocol == protocolHybridEx

namespace Privsep

open Reader

/-! ### Messages -/

/-- One operation on the Kerberos context of the monitor. -/
inductive KerberosOp where
  | step | wrap | unwrap | getMic | verifyMic
  deriving DecidableEq

/-- An operation as its byte. -/
def KerberosOp.code : KerberosOp → ℕ
  | .step => 1 | .wrap => 2 | .unwrap => 3 | .getMic => 4 | .verifyMic => 5

def KerberosOp.ofCode : ℕ → Option KerberosOp
  | 1 => some .step | 2 => some .wrap | 3 => some .unwrap | 4 => some .getMic | 5 => some .verifyMic
  | _ => none

/-- The mechanism OID is for a step only. -/
structure KerberosRequest where
  op : KerberosOp
  data : List UInt8
  mic : List UInt8
  mechanismOid : List UInt8
  deriving DecidableEq

/-- A failed operation says no more. -/
structure KerberosResponse where
  ok : Bool := false
  data : List UInt8 := []
  complete : Bool := false
  user : Text := []
  domain : Text := []
  deriving DecidableEq

/-- The messages of both processes. -/
inductive Message where
  | verifyNtlmRequest (user domain : Text) (serverChallenge : List.Vector UInt8 8) (ntResponse : List UInt8)
  | verifyNtlmResponse (sessionBaseKey : Option (List.Vector UInt8 16))
  | verifyPasswordRequest (user domain password : Text)
  | verifyPasswordResponse (ok : Bool)
  | authenticated (negotiation : Negotiation)
  | kerberosRequest (request : KerberosRequest)
  | kerberosResponse (response : KerberosResponse)
  deriving DecidableEq

/-- An AP-REQ with a PAC is the largest. -/
def maxMessageSize : ℕ := 64 * 1024
/-- Bytes of the length in front. -/
def lengthPrefix : ℕ := 4
def maxString : ℕ := 1024
def maxNtResponse : ℕ := 2048
/-- Windows' MaxTokenSize. -/
def maxKerberosBlob : ℕ := 48000

/-! ### Writing -/

/-- A length of 32 bits and the bytes. -/
def writeBlob (bytes : List UInt8) : Option (List UInt8) :=
  if bytes.length ≤ maxKerberosBlob then some (Writer.u32le bytes.length ++ bytes) else none

/-- A length of 16 bits and UTF-8. -/
def writeString (t : Text) : Option (List UInt8) :=
  if t.length ≤ maxString then some (Writer.u16le t.length ++ t) else none

def writeFlag (b : Bool) : List UInt8 := Writer.u8 b.toNat

/-- The type and the fields. -/
def encodeBody : Message → Option (List UInt8)
  | .verifyNtlmRequest user domain serverChallenge ntResponse => do
    if maxNtResponse < ntResponse.length then none
    let u ← writeString user
    let d ← writeString domain
    pure (Writer.u8 1 ++ u ++ d ++ serverChallenge.toList ++ Writer.u16le ntResponse.length ++ ntResponse)
  | .verifyNtlmResponse sessionBaseKey =>
    pure (Writer.u8 2 ++ writeFlag sessionBaseKey.isSome ++ (sessionBaseKey.map (·.toList)).getD [])
  | .verifyPasswordRequest user domain password => do
    let u ← writeString user
    let d ← writeString domain
    let p ← writeString password
    pure (Writer.u8 3 ++ u ++ d ++ p)
  | .verifyPasswordResponse ok => pure (Writer.u8 4 ++ writeFlag ok)
  | .authenticated n => do
    let cookie ← writeString n.cookie
    let identity ← match n.identity with
      | some i => do
        let u ← writeString i.user
        let d ← writeString i.domain
        pure (u ++ d)
      | none => pure []
    pure (Writer.u8 5 ++ cookie ++ Writer.u32le n.requestedProtocols ++ Writer.u32le n.selectedProtocol ++
      writeFlag n.identity.isSome ++ identity)
  | .kerberosRequest m => do
    let data ← writeBlob m.data
    let mic ← writeBlob m.mic
    let oid ← writeBlob m.mechanismOid
    pure (Writer.u8 6 ++ Writer.u8 m.op.code ++ data ++ mic ++ oid)
  | .kerberosResponse m => do
    let data ← writeBlob m.data
    let user ← writeString m.user
    let domain ← writeString m.domain
    pure (Writer.u8 7 ++ writeFlag m.ok ++ writeFlag m.complete ++ data ++ user ++ domain)

/-- `none` is a failed assertion. -/
def encode (message : Message) : Option (List UInt8) := do
  let body ← encodeBody message
  if body.length ≤ maxMessageSize then pure (Writer.u32le body.length ++ body) else none

/-! ### Reading -/

/-- The inverse of `writeBlob`. -/
def readBlob : Parse (List UInt8) := do
  let start ← at_
  let size ← u32le
  if size > maxKerberosBlob then Parse.fail .limitExceeded "privsep blob too long" start
  else bytes size

/-- The inverse of `writeString`. -/
def readString : Parse Text := do
  let start ← at_
  let size ← u16le
  if size > maxString then Parse.fail .limitExceeded "privsep string too long" start
  else bytes size

/-- Copies `n` bytes into an array that starts as zeros. -/
def readArray (n : ℕ) : Parse (List.Vector UInt8 n) := do
  let raw ← bytes n
  pure ⟨(raw ++ Writer.zeros n).take n, by simp [Writer.zeros]⟩

/-- A challenge and the response to it. -/
def decodeVerifyNtlmRequest : Parse Message := do
  let user ← readString
  let domain ← readString
  let serverChallenge ← readArray 8
  let sizeOffset ← at_
  let size ← u16le
  if size > maxNtResponse then Parse.fail .limitExceeded "NT response too long" sizeOffset
  else do
    let response ← bytes size
    pure (.verifyNtlmRequest user domain serverChallenge response)

/-- The session base key, if it is right. -/
def decodeVerifyNtlmResponse : Parse Message := do
  let ok ← u8
  if ok ≠ 0 then do
    let key ← readArray 16
    pure (.verifyNtlmResponse (some key))
  else pure (.verifyNtlmResponse none)

def decodeVerifyPasswordRequest : Parse Message := do
  let user ← readString
  let domain ← readString
  let password ← readString
  pure (.verifyPasswordRequest user domain password)

def decodeVerifyPasswordResponse : Parse Message := do
  let ok ← u8
  pure (.verifyPasswordResponse (ok != 0))

/-- To the monitor. -/
def decodeKerberosRequest : Parse Message := do
  let op ← u8
  match KerberosOp.ofCode op with
  | none => Parse.fail .invalidValue "unknown Kerberos operation" 0
  | some op =>
    let data ← readBlob
    let mic ← readBlob
    let mechanismOid ← readBlob
    pure (.kerberosRequest { op, data, mic, mechanismOid })

/-- To the network process. -/
def decodeKerberosResponse : Parse Message := do
  let ok ← u8
  let complete ← u8
  let data ← readBlob
  let user ← readString
  let domain ← readString
  pure (.kerberosResponse { ok := ok != 0, complete := complete != 0, data, user, domain })

/-- Pre-authentication is complete. -/
def decodeAuthenticated : Parse Message := do
  let cookie ← readString
  let requestedProtocols ← u32le
  let selectedProtocol ← u32le
  let hasIdentity ← u8
  if hasIdentity ≠ 0 then do
    let user ← readString
    let domain ← readString
    pure (.authenticated { cookie, requestedProtocols, selectedProtocol, identity := some { user, domain } })
  else pure (.authenticated { cookie, requestedProtocols, selectedProtocol, identity := none })

/-- A message with nothing behind its last field. -/
def filling (p : Parse Message) : Parse Message := do
  let message ← p
  expectEnd "privsep message"
  pure message

/-- The two Kerberos messages return before the check for trailing bytes. -/
def decodeBody : Parse Message := do
  let type ← u8
  match type with
  | 1 => filling decodeVerifyNtlmRequest
  | 2 => filling decodeVerifyNtlmResponse
  | 3 => filling decodeVerifyPasswordRequest
  | 4 => filling decodeVerifyPasswordResponse
  | 5 => filling decodeAuthenticated
  | 6 => decodeKerberosRequest
  | 7 => decodeKerberosResponse
  | _ => Parse.fail .invalidValue "unknown privsep message type" lengthPrefix

/-- Decodes exactly one framed message. -/
def decode (frame : List UInt8) : Result Message := do
  let (length, outer) ← u32le { rest := frame }
  if length ≠ outer.remaining ∨ length > maxMessageSize then
    fail .invalidLength "privsep length does not match the message" 0
  else
    let (message, _) ← decodeBody outer
    pure message

/-! ### When an answer can be written -/

theorem writeBlob_eq_none {bytes : List UInt8} : writeBlob bytes = none ↔ maxKerberosBlob < bytes.length := by
  unfold writeBlob
  split_ifs with h
  · exact ⟨fun hn => (by cases hn), fun hlt => absurd h (by omega)⟩
  · exact ⟨fun _ => (by omega), fun _ => rfl⟩

theorem writeString_eq_none {t : Text} : writeString t = none ↔ maxString < t.length := by
  unfold writeString
  split_ifs with h
  · exact ⟨fun hn => (by cases hn), fun hlt => absurd h (by omega)⟩
  · exact ⟨fun _ => (by omega), fun _ => rfl⟩

theorem writeBlob_length {bytes out : List UInt8} (h : writeBlob bytes = some out) :
    out.length = 4 + bytes.length ∧ bytes.length ≤ maxKerberosBlob := by
  unfold writeBlob at h
  split_ifs at h with hle
  cases h
  exact ⟨by simp, hle⟩

theorem writeString_length {t : Text} {out : List UInt8} (h : writeString t = some out) :
    out.length = 2 + t.length ∧ t.length ≤ maxString := by
  unfold writeString at h
  split_ifs at h with hle
  cases h
  exact ⟨by simp, hle⟩

theorem writeFlag_length (b : Bool) : (writeFlag b).length = 1 := rfl

/-- A body within the message limit is all `encode` needs. -/
theorem encode_of_body {message : Message} {body : List UInt8} (h : encodeBody message = some body)
    (hle : body.length ≤ maxMessageSize) : encode message = some (Writer.u32le body.length ++ body) := by
  unfold encode
  rw [h]
  exact if_pos hle

/-- A Kerberos answer cannot be written if its token or a name is too long,
and only then: with all three in their limits the message is below its own. -/
theorem encode_kerberosResponse_eq_none {m : KerberosResponse} :
    encode (.kerberosResponse m) = none ↔
      maxKerberosBlob < m.data.length ∨ maxString < m.user.length ∨ maxString < m.domain.length := by
  rw [← writeBlob_eq_none, ← writeString_eq_none, ← writeString_eq_none]
  cases hd : writeBlob m.data with
  | none => simp [encode, encodeBody, hd]
  | some data =>
    cases hu : writeString m.user with
    | none => simp [encode, encodeBody, hu]
    | some user =>
      cases hm : writeString m.domain with
      | none => simp [encode, encodeBody, hm]
      | some domain =>
        have hbody : encodeBody (.kerberosResponse m) =
            some (Writer.u8 7 ++ writeFlag m.ok ++ writeFlag m.complete ++ data ++ user ++ domain) := by
          simp [encodeBody, hd, hu, hm]
        have h1 := writeBlob_length hd
        have h2 := writeString_length hu
        have h3 := writeString_length hm
        rw [encode_of_body hbody]
        · simp
        · simp only [List.length_append, Writer.u8_length, writeFlag_length]
          unfold maxKerberosBlob at h1
          unfold maxString at h2 h3
          unfold maxMessageSize
          omega

theorem encode_verifyNtlmResponse (key : Option (List.Vector UInt8 16)) :
    ∃ reply, encode (.verifyNtlmResponse key) = some reply := by
  refine ⟨_, encode_of_body rfl ?_⟩
  cases key with
  | none | some k => simp [writeFlag_length, maxMessageSize]

end Privsep
end Server
end Farland
