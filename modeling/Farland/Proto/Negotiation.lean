/-
# The negotiation of the security protocol

The X.224 Connection Request of the client and the Connection Confirm of the
server (`proto/x224.cpp`), which carry what the client can do and what the
server selected. Each stands in a TPKT of its own.

Key theorem: `confirmOf_encode`.
-/
import Farland.Proto.X224

namespace Farland
namespace Proto

open Reader Parse

/-! ### What is negotiated -/

namespace Protocol

def ssl : ℕ := 0x00000001
def hybrid : ℕ := 0x00000002
def hybridEx : ℕ := 0x00000008

end Protocol

/-- `neg_req_flags::correlation_info_present`. -/
def correlationInfoPresent : ℕ := 0x08

/-- `neg_rsp_flags`. -/
def extendedClientDataSupported : ℕ := 0x01
def dynvcGfxProtocolSupported : ℕ := 0x02

inductive NegotiationFailureCode where
  | sslRequiredByServer
  | sslNotAllowedByServer
  | sslCertNotOnServer
  | inconsistentFlags
  | hybridRequiredByServer
  | sslWithUserAuthRequiredByServer
  deriving DecidableEq

def NegotiationFailureCode.value : NegotiationFailureCode → ℕ
  | .sslRequiredByServer => 1
  | .sslNotAllowedByServer => 2
  | .sslCertNotOnServer => 3
  | .inconsistentFlags => 4
  | .hybridRequiredByServer => 5
  | .sslWithUserAuthRequiredByServer => 6

/-- `ConnectionRequest::Negotiation`. -/
structure NegotiationRequest where
  flags : ℕ := 0
  requestedProtocols : ℕ := 0
  deriving DecidableEq

structure ConnectionRequest where
  /-- The user name of `Cookie: mstshash=`. -/
  cookie : Text := []
  /-- Any other token. -/
  routingToken : List UInt8 := []
  negotiation : Option NegotiationRequest := none
  correlationId : Option (List UInt8) := none
  deriving DecidableEq

structure NegotiationResponse where
  flags : ℕ := 0
  selectedProtocol : ℕ := Protocol.ssl
  deriving DecidableEq

/-- The result of a Connection Confirm. A failure is the number that travels. -/
inductive ConnectionConfirm where
  | none
  | response (response : NegotiationResponse)
  | failure (code : ℕ)
  deriving DecidableEq

/-! ### The headers -/

def typeRdpNegReq : ℕ := 0x01
def typeRdpNegRsp : ℕ := 0x02
def typeRdpNegFailure : ℕ := 0x03
def typeRdpCorrelationInfo : ℕ := 0x06
def negStructureLength : ℕ := 8
def correlationInfoLength : ℕ := 36

/-- Code, DST-REF, SRC-REF, class. -/
def fixedCrCcHeader : ℕ := 6
def serverSrcRef : ℕ := 0x1234

def cookiePrefix : Text := text "Cookie: mstshash="
def crlf : List UInt8 := [13, 10]

/-- The length indicator and the fixed part of a CR or CC; a reader over the
variable part. -/
def readCrCcHeader (expected : TpduCode) : Parse Reader := do
  let start ← at_
  let li ← u8
  let remaining ← left
  if li < fixedCrCcHeader ∨ li ≠ remaining then
    Parse.fail .invalidLength "X.224 length indicator does not match the TPDU" start
  else
    let code ← u8
    if code ≠ expected.value then Parse.fail .invalidValue "unexpected X.224 TPDU code" (start + 1)
    else
      skip 4
      let cls ← u8
      if cls ≠ 0 then Parse.fail .unsupported "X.224 class other than 0" (start + 6)
      else
        let variableSize ← left
        sub variableSize

/-- A TPKT around a CR or CC with this variable part, which has to leave room
in the length indicator. -/
def crCcTpkt (code : TpduCode) (srcRef : ℕ) (variablePart : List UInt8) : Option (List UInt8) := do
  asserts (fixedCrCcHeader + variablePart.length ≤ 0xFE)
  pure ([3, 0] ++ (Writer.u16be (4 + 1 + fixedCrCcHeader + variablePart.length) ++
    (Writer.u8 (fixedCrCcHeader + variablePart.length) ++ (Writer.u8 code.value ++
      (Writer.u16be 0 ++ (Writer.u16be srcRef ++ (Writer.u8 0 ++ variablePart)))))))

/-! ### The Connection Request -/

/-- The position of the CRLF that ends a token. -/
def findCrlf : List UInt8 → Option ℕ
  | [] | [_] => none
  | a :: b :: rest => if a = 13 ∧ b = 10 then some 0 else (findCrlf (b :: rest)).map (· + 1)

/-- The optional cookie or routing token in front of RDP_NEG_REQ. -/
def readToken : Parse ConnectionRequest := fun r =>
  match r.rest with
  | [] => .ok ({}, r)
  | first :: _ =>
    if first.toNat = typeRdpNegReq then .ok ({}, r)
    else
      match findCrlf r.rest with
      | none => fail .invalidValue "X.224 cookie is not terminated by CRLF" r.offset
      | some size =>
        let token := r.rest.take size
        let rest : Reader := ⟨r.rest.drop (size + 2), r.offset + (size + 2)⟩
        if cookiePrefix.isPrefixOf token then .ok ({ cookie := token.drop cookiePrefix.length }, rest)
        else .ok ({ routingToken := token }, rest)

/-- RDP_NEG_CORRELATION_INFO. -/
def readCorrelationInfo : Parse (List UInt8) := do
  let start ← at_
  let type ← u8
  skip 1
  let length ← u16le
  if type ≠ typeRdpCorrelationInfo ∨ length ≠ correlationInfoLength then
    Parse.fail .invalidValue "malformed RDP_NEG_CORRELATION_INFO" start
  else
    let id ← bytes 16
    skip 16
    pure id

def readCorrelation (flags : ℕ) : Parse (Option (List UInt8)) :=
  if flags &&& correlationInfoPresent ≠ 0 then do
    let id ← readCorrelationInfo
    pure (some id)
  else pure none

/-- RDP_NEG_REQ. -/
def readNegotiation (request : ConnectionRequest) : Parse ConnectionRequest := do
  let start ← at_
  let type ← u8
  if type ≠ typeRdpNegReq then Parse.fail .invalidValue "expected RDP_NEG_REQ" start
  else
    let flags ← u8
    let length ← u16le
    if length ≠ negStructureLength then Parse.fail .invalidLength "RDP_NEG_REQ length is not 8" (start + 2)
    else
      let requestedProtocols ← u32le
      let correlationId ← readCorrelation flags
      pure { request with negotiation := some ⟨flags, requestedProtocols⟩, correlationId }

/-- The variable part of a Connection Request. -/
def decodeVariable : Parse ConnectionRequest := do
  let request ← readToken
  let atEnd ← atEnd
  let request ← if atEnd then pure request else readNegotiation request
  expectEnd "X.224 Connection Request"
  pure request

def decodeConnectionRequest : Parse ConnectionRequest := do
  let variablePart ← readCrCcHeader .connectionRequest
  Parse.on variablePart decodeVariable

/-- The client's side. -/
def encodeConnectionRequest (request : ConnectionRequest) : Option (List UInt8) :=
  let token :=
    if request.cookie ≠ [] then cookiePrefix ++ request.cookie ++ crlf
    else if request.routingToken ≠ [] then request.routingToken ++ crlf
    else []
  let correlation : List UInt8 := match request.correlationId with
    | none => []
    | some id =>
      Writer.u8 typeRdpCorrelationInfo ++ Writer.u8 0 ++ Writer.u16le correlationInfoLength ++ id ++ Writer.zeros 16
  let negotiation : List UInt8 := match request.negotiation with
    | none => []
    | some n =>
      Writer.u8 typeRdpNegReq ++
        Writer.u8 (n.flags ||| if request.correlationId.isSome then correlationInfoPresent else 0) ++
        Writer.u16le negStructureLength ++ Writer.u32le n.requestedProtocols ++ correlation
  crCcTpkt .connectionRequest 0 (token ++ negotiation)

/-! ### The Connection Confirm -/

def negStructure (type flags value : ℕ) : List UInt8 :=
  Writer.u8 type ++ (Writer.u8 flags ++ (Writer.u16le negStructureLength ++ Writer.u32le value))

def confirmVariable : ConnectionConfirm → List UInt8
  | .none => []
  | .response r => negStructure typeRdpNegRsp r.flags r.selectedProtocol
  | .failure code => negStructure typeRdpNegFailure 0 code

def encodeConnectionConfirm (confirm : ConnectionConfirm) : Option (List UInt8) :=
  crCcTpkt .connectionConfirm serverSrcRef (confirmVariable confirm)

/-- The variable part of a Connection Confirm. -/
def decodeConfirmVariable : Parse ConnectionConfirm := do
  let start ← at_
  let type ← u8
  let flags ← u8
  let length ← u16le
  if length ≠ negStructureLength then Parse.fail .invalidLength "RDP_NEG_RSP length is not 8" (start + 2)
  else
    let value ← u32le
    if type = typeRdpNegRsp then do
      expectEnd "X.224 Connection Confirm"
      pure (.response ⟨flags, value⟩)
    else if type = typeRdpNegFailure then do
      expectEnd "X.224 Connection Confirm"
      pure (.failure value)
    else Parse.fail .invalidValue "expected RDP_NEG_RSP or RDP_NEG_FAILURE" start

def decodeConnectionConfirm : Parse ConnectionConfirm := do
  let variablePart ← readCrCcHeader .connectionConfirm
  if variablePart.empty then pure .none else Parse.on variablePart decodeConfirmVariable

/-- What a client reads in a whole packet. -/
def confirmOf (packet : List UInt8) : Result ConnectionConfirm := do
  let (tpdu, _) ← readTpkt ⟨packet, 0⟩
  let (confirm, _) ← decodeConnectionConfirm tpdu
  pure confirm

/-! ### Reading back -/

/-- The values fit the fields they travel in. -/
def ConnectionConfirm.Fits : ConnectionConfirm → Prop
  | .none => True
  | .response r => r.flags < 2 ^ 8 ∧ r.selectedProtocol < 2 ^ 32
  | .failure code => code < 2 ^ 32

theorem u8_front (v : ℕ) (rest : List UInt8) (o : ℕ) (h : v < 256) :
    u8 ⟨Writer.u8 v ++ rest, o⟩ = .ok (v, ⟨rest, o + 1⟩) := u8_append v rest o h

theorem u16be_front (v : ℕ) (rest : List UInt8) (o : ℕ) (h : v < 65536) :
    u16be ⟨Writer.u16be v ++ rest, o⟩ = .ok (v, ⟨rest, o + 2⟩) := by
  unfold u16be readBe Writer.u16be
  rw [bytes_append' _ _ _ (by simp)]
  simp only [List.reverse_reverse, LittleEndian.leValue_leBytes, Nat.mod_eq_of_lt (show v < 256 ^ 2 by omega)]

/-- The fields of a negotiation structure. -/
theorem negStructure_read {flags value : ℕ} (hflags : flags < 256) (hvalue : value < 4294967296) (o : ℕ) :
    decodeConfirmVariable ⟨negStructure typeRdpNegRsp flags value, o⟩ =
        .ok (.response ⟨flags, value⟩, ⟨[], o + 1 + 1 + 2 + 4⟩) ∧
      decodeConfirmVariable ⟨negStructure typeRdpNegFailure flags value, o⟩ =
        .ok (.failure value, ⟨[], o + 1 + 1 + 2 + 4⟩) := by
  have hlength : ∀ (rest : List UInt8) (o : ℕ),
      u16le ⟨Writer.u16le negStructureLength ++ rest, o⟩ = .ok (negStructureLength, ⟨rest, o + 2⟩) :=
    fun rest o => u16le_append negStructureLength rest o (by decide)
  have hlast : ∀ o, u32le ⟨Writer.u32le value, o⟩ = .ok (value, ⟨[], o + 4⟩) := by
    intro o
    have h := u32le_append value [] o hvalue
    rwa [List.append_nil] at h
  unfold decodeConfirmVariable negStructure
  constructor
  all_goals
    rw [bind_ok rfl, bind_ok (u8_front _ _ o (by decide)), bind_ok (u8_front _ _ (o + 1) hflags),
      bind_ok (hlength _ (o + 1 + 1)), if_neg (by simp), bind_ok (hlast _)]
    rfl

/-- A TPKT around a CR or CC gives its variable part back. -/
theorem crCcTpkt_read (code : TpduCode) (srcRef : ℕ) {variablePart : List UInt8}
    (hsize : fixedCrCcHeader + variablePart.length ≤ 0xFE) :
    ∃ packet tpdu rest, crCcTpkt code srcRef variablePart = some packet ∧
      readTpkt ⟨packet, 0⟩ = .ok (tpdu, ⟨[], rest⟩) ∧
      readCrCcHeader code tpdu = .ok (⟨variablePart, 11⟩, ⟨[], 11 + variablePart.length⟩) := by
  have hcode : code.value < 256 := by cases code <;> decide
  have hfield : fixedCrCcHeader = 6 := rfl
  let body := Writer.u8 (fixedCrCcHeader + variablePart.length) ++ (Writer.u8 code.value ++
    (Writer.u16be 0 ++ (Writer.u16be srcRef ++ (Writer.u8 0 ++ variablePart))))
  have hbody : body.length = 4 + 1 + fixedCrCcHeader + variablePart.length - tpktHeaderSize := by
    simp only [body, List.length_append, Writer.u8_length, Writer.u16be_length, tpktHeaderSize]
    omega
  refine ⟨[3, 0] ++ (Writer.u16be (4 + 1 + fixedCrCcHeader + variablePart.length) ++ body), ⟨body, 4⟩,
    4 + body.length, ?_, ?_, ?_⟩
  · unfold crCcTpkt asserts
    rw [if_pos hsize]
    rfl
  · have hversion : u8 ⟨[3, 0] ++ (Writer.u16be (4 + 1 + fixedCrCcHeader + variablePart.length) ++ body), 0⟩ =
        .ok (3, ⟨[0] ++ (Writer.u16be (4 + 1 + fixedCrCcHeader + variablePart.length) ++ body), 1⟩) :=
      u8_front 3 _ 0 (by decide)
    have hreserved : skip 1 ⟨[0] ++ (Writer.u16be (4 + 1 + fixedCrCcHeader + variablePart.length) ++ body), 1⟩ =
        .ok ((), ⟨Writer.u16be (4 + 1 + fixedCrCcHeader + variablePart.length) ++ body, 1 + 1⟩) :=
      skip_append [0] _ 1 rfl
    unfold readTpkt
    rw [bind_ok rfl, bind_ok hversion, if_neg (by simp), bind_ok hreserved,
      bind_ok (u16be_front _ _ (1 + 1) (by omega)), if_neg (by simp only [tpktHeaderSize]; omega)]
    have hsub := sub_append body [] (1 + 1 + 2) hbody
    rw [List.append_nil] at hsub
    rw [hsub, ← hbody]
  · have hleft : left ⟨Writer.u8 code.value ++
        (Writer.u16be 0 ++ (Writer.u16be srcRef ++ (Writer.u8 0 ++ variablePart))), 4 + 1⟩ =
        .ok (fixedCrCcHeader + variablePart.length, ⟨Writer.u8 code.value ++
          (Writer.u16be 0 ++ (Writer.u16be srcRef ++ (Writer.u8 0 ++ variablePart))), 4 + 1⟩) := by
      unfold left remaining
      simp only [List.length_append, Writer.u8_length, Writer.u16be_length]
      congr 2
      omega
    have hsub := sub_append variablePart [] (4 + 1 + 1 + 4 + 1) rfl
    rw [List.append_nil] at hsub
    unfold readCrCcHeader
    rw [bind_ok rfl, bind_ok (u8_front _ _ 4 (by omega)), bind_ok hleft, if_neg (by simp),
      bind_ok (u8_front _ _ (4 + 1) hcode), if_neg (by simp)]
    exact hsub

/-- **A Connection Confirm is read back.** -/
theorem confirmOf_encode {confirm : ConnectionConfirm} (h : confirm.Fits) :
    ∃ packet, encodeConnectionConfirm confirm = some packet ∧ confirmOf packet = .ok confirm := by
  have hsize : fixedCrCcHeader + (confirmVariable confirm).length ≤ 0xFE := by
    match confirm with
    | .none | .response _ | .failure _ => simp [confirmVariable, negStructure, fixedCrCcHeader]
  obtain ⟨packet, tpdu, rest, hencode, htpkt, hheader⟩ :=
    crCcTpkt_read .connectionConfirm serverSrcRef hsize
  have hdecode : ∃ r, decodeConnectionConfirm tpdu = .ok (confirm, r) := by
    unfold decodeConnectionConfirm
    rw [bind_ok hheader]
    match confirm with
    | .none => exact ⟨_, rfl⟩
    | .response r =>
      have hread : decodeConfirmVariable ⟨confirmVariable (.response r), 11⟩ = _ := (negStructure_read h.1 h.2 11).1
      unfold Parse.on
      rw [hread]
      exact ⟨_, rfl⟩
    | .failure code =>
      have hread : decodeConfirmVariable ⟨confirmVariable (.failure code), 11⟩ = _ :=
        (negStructure_read (show 0 < 256 by decide) h 11).2
      unfold Parse.on
      rw [hread]
      exact ⟨_, rfl⟩
  obtain ⟨r, hr⟩ := hdecode
  refine ⟨packet, hencode, ?_⟩
  unfold confirmOf
  rw [htpkt]
  show (do let (confirm, _) ← decodeConnectionConfirm tpdu; pure confirm : Result ConnectionConfirm) = _
  rw [hr]
  rfl

end Proto
end Farland
