/-
# SPNEGO tokens

`auth/spnego.cpp`: the two negotiation tokens of RFC 4178, read as DER with the
limits and checks of the source, and written back. The mechListMIC is computed
over the exact DER of the MechTypeList, which decoding therefore keeps as
received (`NegTokenInit.mechTypesDer`).
-/
import Farland.Base.Ber

namespace Farland
namespace Auth

open Reader

abbrev Bytes := List UInt8

/-- An OBJECT IDENTIFIER as DER content octets, without tag and length. -/
abbrev Oid := Bytes

namespace Spnego

open Ber

/-- 1.3.6.1.5.5.2, SPNEGO itself. -/
def spnegoOid : Oid := [0x2b, 0x06, 0x01, 0x05, 0x05, 0x02]

/-- 1.3.6.1.4.1.311.2.2.10, NTLM. -/
def ntlmOid : Oid := [0x2b, 0x06, 0x01, 0x04, 0x01, 0x82, 0x37, 0x02, 0x02, 0x0a]

/-- 1.2.840.113554.1.2.2, Kerberos V5. -/
def kerberosOid : Oid := [0x2a, 0x86, 0x48, 0x86, 0xf7, 0x12, 0x01, 0x02, 0x02]

/-- Largest mechanism token accepted. -/
def maxTokenSize : ℕ := 48000

/-- Largest mechListMIC accepted. -/
def maxMicSize : ℕ := 1024

/-- Most entries accepted in mechTypes. -/
def maxMechTypes : ℕ := 16

/-- Longest OBJECT IDENTIFIER accepted, in content octets. -/
def maxOidSize : ℕ := 32

/-- NegTokenResp.negState. -/
inductive NegState where
  | acceptCompleted
  | acceptIncomplete
  | reject
  | requestMic
  deriving DecidableEq

def NegState.toNat : NegState → ℕ
  | .acceptCompleted => 0
  | .acceptIncomplete => 1
  | .reject => 2
  | .requestMic => 3

def NegState.ofInt : ℤ → Option NegState
  | 0 => some .acceptCompleted
  | 1 => some .acceptIncomplete
  | 2 => some .reject
  | 3 => some .requestMic
  | _ => none

structure NegTokenInit where
  mechTypes : List Oid
  /-- The exact DER of the MechTypeList. -/
  mechTypesDer : Bytes
  mechToken : Option Bytes := none
  mechListMic : Option Bytes := none
  deriving DecidableEq

structure NegTokenResp where
  negState : Option NegState := none
  supportedMech : Option Oid := none
  responseToken : Option Bytes := none
  mechListMic : Option Bytes := none
  deriving DecidableEq

inductive NegotiationToken where
  | init (token : NegTokenInit)
  | resp (token : NegTokenResp)
  deriving DecidableEq

/-- `InitialContextToken ::= [APPLICATION 0] IMPLICIT SEQUENCE`. -/
def initialContextToken : Tag := application 0

/-! ### Decoding -/

def nextIs (r : Reader) (tag : Tag) : Bool :=
  if r.empty then false
  else match peekTag .der r with
    | .ok (next, _) => next = tag
    | .error _ => false

/-- The optional field `[number]`: read by `x` when it is next. -/
def optionalField {α : Type} (number : ℕ) (x : Parse α) : Parse (Option α) := fun r =>
  if nextIs r (context number) then
    match x r with
    | .ok (a, r') => .ok (some a, r')
    | .error e => .error e
  else .ok (none, r)

/-- X.690 8.19.2: whether a subidentifier starts at each octet that is left. -/
def checkSubidentifiers (offset : ℕ) : Bool → Bytes → Result Unit
  | atStart, [] =>
    if atStart then .ok () else fail .invalidValue "OBJECT IDENTIFIER ends inside a subidentifier" offset
  | atStart, octet :: rest =>
    if atStart ∧ octet = 0x80 then
      fail .invalidValue "OBJECT IDENTIFIER subidentifier has a leading 0x80 octet" offset
    else checkSubidentifiers offset (octet &&& 0x80 = 0) rest

def checkOid (oid : Bytes) (offset : ℕ) : Result Unit :=
  if oid = [] then fail .invalidLength "OBJECT IDENTIFIER has no content octets" offset
  else if oid.length > maxOidSize then fail .limitExceeded "OBJECT IDENTIFIER too long" offset
  else checkSubidentifiers offset true oid

def readOid : Parse Oid := do
  let tlv ← expectTlv Tags.objectIdentifier .der
  checkOid tlv.value tlv.valueOffset
  pure tlv.value

/-- The contents of an explicitly tagged field `[number]`. -/
def readField (number : ℕ) : Parse Reader := readConstructed (context number) .der

/-- `[number] OCTET STRING` of at most `limit` bytes; `tooLarge` describes a longer one. -/
def readOctetsFieldOf (tooLarge : String) (number limit : ℕ) : Parse Bytes := do
  let field ← readField number
  let (tlv, field) ← within (expectTlv Tags.octetString .der) field
  let _ ← within (expectEnd "explicitly tagged OCTET STRING") field
  if tlv.value.length > limit then Parse.fail .limitExceeded tooLarge tlv.valueOffset else pure tlv.value

def readOctetsField (number limit : ℕ) : Parse Bytes :=
  readOctetsFieldOf "SPNEGO token field too large" number limit

/-- The entries of a MechTypeList; `room` more are accepted, and no loop runs longer than the input. -/
def readMechTypes : ℕ → ℕ → Reader → Result (List Oid)
  | 0, _, _ => .ok []
  | fuel + 1, room, oids =>
    if oids.empty then .ok []
    else match room with
      | 0 => fail .limitExceeded "too many entries in mechTypes" oids.offset
      | room + 1 => do
        let (oid, oids) ← readOid oids
        let rest ← readMechTypes fuel room oids
        pure (oid :: rest)

/-- Field `[3]`: mechListMIC, or the negHints of NegTokenInit2, which are not kept. -/
def readMicOrHints : Parse (Option Bytes) := do
  let field ← readField 3
  let (inner, field) ← within (readTlv .der) field
  let _ ← within (expectEnd "NegTokenInit field [3]") field
  if inner.tag = Tags.octetString then
    if inner.value.length > maxMicSize then Parse.fail .limitExceeded "mechListMIC too large" inner.valueOffset
    else pure (some inner.value)
  else if inner.tag ≠ Tags.sequence then
    Parse.fail .invalidValue "NegTokenInit field [3] is neither mechListMIC nor negHints" inner.valueOffset
  else pure none

/-- The fields behind mechTypes. -/
def readInitFields : Parse (Option Bytes × Option Bytes) := do
  let _ ← optionalField 1 do
    let flags ← readField 1
    let (_, flags) ← within (expectTlv Tags.bitString .der) flags
    let _ ← within (expectEnd "reqFlags") flags
    pure ()
  let mechToken ← optionalField 2 (readOctetsField 2 maxTokenSize)
  let mic ← optionalField 3 readMicOrHints
  match mic.join with
  | some mic => pure (mechToken, some mic)
  | none =>
    let mic ← optionalField 4 (readOctetsField 4 maxMicSize)
    pure (mechToken, mic)

def decodeInit (choice : Reader) : Result NegTokenInit := do
  let (seq, choice) ← readConstructed Tags.sequence .der choice
  let _ ← expectEnd "NegTokenInit" choice
  let (typesField, seq) ← expectTlv (context 0) .der seq
  let (list, typesReader) ← expectTlv Tags.sequence .der typesField.reader
  let _ ← expectEnd "mechTypes" typesReader
  let mechTypes ← readMechTypes (list.value.length + 1) maxMechTypes list.reader
  if mechTypes = [] then fail .invalidLength "mechTypes is empty" list.valueOffset
  let ((mechToken, mechListMic), seq) ← readInitFields seq
  let _ ← expectEnd "NegTokenInit" seq
  pure ⟨mechTypes, typesField.value, mechToken, mechListMic⟩

def readNegState : Parse NegState := do
  let field ← readField 0
  let (state, after) ← within (readInteger .der Tags.enumerated) field
  let _ ← within (expectEnd "negState") after
  match NegState.ofInt state with
  | some state => pure state
  | none => Parse.fail .invalidValue "unknown negState" field.offset

def readSupportedMech : Parse Oid := do
  let field ← readField 1
  let (oid, field) ← within readOid field
  let _ ← within (expectEnd "supportedMech") field
  pure oid

def decodeResp (choice : Reader) : Result NegTokenResp := do
  let (seq, choice) ← readConstructed Tags.sequence .der choice
  let _ ← expectEnd "NegTokenResp" choice
  let (negState, seq) ← optionalField 0 readNegState seq
  let (supportedMech, seq) ← optionalField 1 readSupportedMech seq
  let (responseToken, seq) ← optionalField 2 (readOctetsField 2 maxTokenSize) seq
  let (mechListMic, seq) ← optionalField 3 (readOctetsField 3 maxMicSize) seq
  let _ ← expectEnd "NegTokenResp" seq
  pure ⟨negState, supportedMech, responseToken, mechListMic⟩

/-- Decodes either token; an InitialContextToken for another mechanism is an error. -/
def decode (token : Bytes) : Result NegotiationToken := do
  let (tag, r) ← peekTag .der ⟨token, 0⟩
  if tag = initialContextToken then
    let (inner, r) ← readConstructed initialContextToken .der r
    let _ ← expectEnd "InitialContextToken" r
    let (mech, after) ← readOid inner
    if mech ≠ spnegoOid then fail .unsupported "InitialContextToken is not for SPNEGO" inner.offset
    let (choice, after) ← readField 0 after
    let _ ← expectEnd "InitialContextToken" after
    let init ← decodeInit choice
    pure (.init init)
  else
    let (choice, r) ← readField 1 r
    let _ ← expectEnd "NegotiationToken" r
    let resp ← decodeResp choice
    pure (.resp resp)

/-- The signature of a bare NTLM message, NUL included. -/
def ntlmSignature : Bytes := text "NTLMSSP" ++ [0]

/-- Whether `token` is a bare NTLM message rather than SPNEGO. -/
def isRawNtlm (token : Bytes) : Bool := token.take 8 = ntlmSignature

/-! ### Encoding -/

def writeOctetsField (number : ℕ) (value : Bytes) : Bytes := writeTlv (context number) (writeOctetString value)

/-- The field, when there is a value. -/
def writeOptional {α : Type} (write : α → Bytes) : Option α → Bytes
  | some a => write a
  | none => []

def encodeMechTypes (mechTypes : List Oid) : Bytes :=
  writeTlv Tags.sequence (mechTypes.flatMap (writeTlv Tags.objectIdentifier))

/-- A NegTokenInit whose `mechTypesDer` matches `mechTypes`. -/
def makeNegTokenInit (mechTypes : List Oid) (mechToken : Option Bytes := none) : NegTokenInit :=
  ⟨mechTypes, encodeMechTypes mechTypes, mechToken, none⟩

/-- The initiator's first token. -/
def encodeInit (token : NegTokenInit) : Bytes :=
  writeTlv initialContextToken
    (writeTlv Tags.objectIdentifier spnegoOid ++
      writeTlv (context 0) (writeTlv Tags.sequence
        (writeTlv (context 0) token.mechTypesDer ++ writeOptional (writeOctetsField 2) token.mechToken ++
          writeOptional (writeOctetsField 3) token.mechListMic)))

/-- Every later token. -/
def encodeResp (token : NegTokenResp) : Bytes :=
  writeTlv (context 1) (writeTlv Tags.sequence
    (writeOptional (fun s : NegState => writeTlv (context 0) (writeInteger s.toNat Tags.enumerated)) token.negState ++
      writeOptional (fun m => writeTlv (context 1) (writeTlv Tags.objectIdentifier m)) token.supportedMech ++
      writeOptional (writeOctetsField 2) token.responseToken ++
      writeOptional (writeOctetsField 3) token.mechListMic))

end Spnego
end Auth
end Farland
