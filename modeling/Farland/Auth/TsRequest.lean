/-
# TSRequest and TSCredentials

The messages of CredSSP ([MS-CSSP] 2.2.1), `auth/credssp.cpp`. A TSRequest is
cut out of the stream by `frameTsRequest`, which looks at its tag and length
only; what it finds in a prefix of the stream it also finds in the stream
(`frameTsRequest_append`), so the cuts of the transport do not matter.
-/
import Farland.Auth.Spnego
import Farland.Base.Text

namespace Farland
namespace Auth
namespace Credssp

open Ber Spnego Reader

/-- Largest TSRequest accepted, including its tag and length. -/
def maxTsRequestSize : ℕ := 64 * 1024

/-- Largest negoToken, authInfo or pubKeyAuth accepted. -/
def maxFieldSize : ℕ := maxTokenSize

/-- Most NegoData entries accepted in one negoTokens field. -/
def maxNegoTokens : ℕ := 4

/-- Most supplementalCreds accepted in TSRemoteGuardCreds. -/
def maxSupplementalCreds : ℕ := 16

def minVersion : ℕ := 2
def maxVersion : ℕ := 6

/-- NTSTATUS STATUS_LOGON_FAILURE. -/
def statusLogonFailure : ℕ := 0xC000006D

abbrev Nonce := List.Vector UInt8 32
abbrev Hash := List.Vector UInt8 32

structure TsRequest where
  version : ℕ := maxVersion
  /-- NegoData, absent when empty. -/
  negoTokens : List Bytes := []
  authInfo : Option Bytes := none
  pubKeyAuth : Option Bytes := none
  /-- An NTSTATUS. -/
  errorCode : Option ℕ := none
  clientNonce : Option Nonce := none
  deriving DecidableEq

/-! ### Decoding a TSRequest -/

/-- `[number] OCTET STRING` of at most `maxFieldSize` bytes. -/
def readOctetsField (number : ℕ) : Parse Bytes := readOctetsFieldOf "CredSSP field too large" number maxFieldSize

/-- The NegoData entries; `room` more are accepted, and no loop runs longer than the input. -/
def readNegoData : ℕ → ℕ → Reader → Result (List Bytes × Reader)
  | 0, _, list => .ok ([], list)
  | fuel + 1, room, list =>
    if list.empty then .ok ([], list)
    else match room with
      | 0 => fail .limitExceeded "too many negoTokens" list.offset
      | room + 1 => do
        let (data, list) ← readConstructed Tags.sequence .der list
        let (token, data) ← readOctetsField 0 data
        let _ ← expectEnd "NegoData" data
        let (rest, list) ← readNegoData fuel room list
        pure (token :: rest, list)

def readNegoTokens : Parse (List Bytes) := do
  let field ← readField 1
  let (list, field) ← within (readConstructed Tags.sequence .der) field
  let _ ← within (expectEnd "negoTokens") field
  let (tokens, list) ← readNegoData (list.remaining + 1) maxNegoTokens list
  if tokens = [] then Parse.fail .invalidLength "negoTokens is empty" list.offset else pure tokens

def readVersion : Parse ℕ := do
  let field ← readField 0
  let (version, after) ← within (readUnsigned .der) field
  let _ ← within (expectEnd "version") after
  if version > 2 ^ 32 - 1 then Parse.fail .invalidValue "TSRequest version out of range" field.offset
  else pure version

/-- A signed or unsigned 32-bit NTSTATUS. -/
def readErrorCode : Parse ℕ := do
  let field ← readField 4
  let (code, after) ← within (readInteger .der) field
  let _ ← within (expectEnd "errorCode") after
  if code < -2 ^ 31 ∨ code > 2 ^ 32 - 1 then
    Parse.fail .invalidValue "errorCode is not a 32-bit NTSTATUS" field.offset
  else pure (toUnsigned 32 code)

def readClientNonce : Parse Nonce := do
  let offset ← at_
  let nonce ← readOctetsField 5
  if h : nonce.length = 32 then pure ⟨nonce, h⟩
  else Parse.fail .invalidLength "clientNonce is not 32 bytes" offset

/-- Decodes exactly one TSRequest that fills `bytes`. -/
def decodeTsRequest (bytes : Bytes) : Result TsRequest := do
  if bytes.length > maxTsRequestSize then fail .limitExceeded "TSRequest larger than 64 KiB"
  let (seq, r) ← readConstructed Tags.sequence .der ⟨bytes, 0⟩
  let _ ← expectEnd "TSRequest" r
  let (version, seq) ← readVersion seq
  let (negoTokens, seq) ← optionalField 1 readNegoTokens seq
  let (authInfo, seq) ← optionalField 2 (readOctetsField 2) seq
  let (pubKeyAuth, seq) ← optionalField 3 (readOctetsField 3) seq
  let (errorCode, seq) ← optionalField 4 readErrorCode seq
  let (clientNonce, seq) ← optionalField 5 readClientNonce seq
  let _ ← expectEnd "TSRequest" seq
  pure ⟨version, negoTokens.getD [], authInfo, pubKeyAuth, errorCode, clientNonce⟩

/-- The size of the TSRequest at the start of `stream`, or `none` while its tag and length are incomplete. -/
def frameTsRequest (stream : Bytes) : Result (Option ℕ) :=
  match readTag .der ⟨stream, 0⟩ with
  | .error e => if e.code = .truncated then .ok none else .error e
  | .ok (tag, r) =>
    if tag ≠ Tags.sequence then fail .invalidValue "TSRequest does not start with a SEQUENCE"
    else match readLength .der r with
      | .error e => if e.code = .truncated then .ok none else .error e
      | .ok (length, r) =>
        if length > maxTsRequestSize - r.offset then fail .limitExceeded "TSRequest larger than 64 KiB"
        else .ok (some (r.offset + length))

def encodeTsRequest (request : TsRequest) : Bytes :=
  writeTlv Tags.sequence
    (writeTlv (context 0) (writeUnsigned request.version) ++
      (if request.negoTokens = [] then []
        else writeTlv (context 1) (writeTlv Tags.sequence
          (request.negoTokens.flatMap fun token => writeTlv Tags.sequence (writeOctetsField 0 token)))) ++
      writeOptional (writeOctetsField 2) request.authInfo ++
      writeOptional (writeOctetsField 3) request.pubKeyAuth ++
      writeOptional (fun code => writeTlv (context 4) (writeInteger (toSigned 32 code))) request.errorCode ++
      writeOptional (fun nonce : Nonce => writeOctetsField 5 nonce.toList) request.clientNonce)

/-! ### TSCredentials -/

/-- TSPasswordCreds, fields as UTF-16LE. -/
structure TsPasswordCreds where
  domainName : Bytes
  userName : Bytes
  password : Bytes
  deriving DecidableEq

/-- Smart-card and Remote Credential Guard credentials are checked, then kept as their DER. -/
inductive TsCredentials where
  | password (creds : TsPasswordCreds)
  | smartCard (der : Bytes)
  | remoteGuard (der : Bytes)
  deriving DecidableEq

def decodePasswordCreds (r : Reader) : Result TsPasswordCreds := do
  let (seq, r) ← readConstructed Tags.sequence .der r
  let _ ← expectEnd "TSPasswordCreds" r
  let (domainName, seq) ← readOctetsField 0 seq
  let (userName, seq) ← readOctetsField 1 seq
  let (password, seq) ← readOctetsField 2 seq
  let _ ← expectEnd "TSPasswordCreds" seq
  pure ⟨domainName, userName, password⟩

/-- The optional octet strings of the given numbers, in that order. -/
def skipOctetsFields : List ℕ → Parse Unit
  | [] => pure ()
  | number :: rest => do
    let _ ← optionalField number (readOctetsField number)
    skipOctetsFields rest

def checkSmartCardCreds (r : Reader) : Result Unit := do
  let (seq, r) ← readConstructed Tags.sequence .der r
  let _ ← expectEnd "TSSmartCardCreds" r
  let (_, seq) ← readOctetsField 0 seq
  let (cspField, seq) ← readField 1 seq
  let (csp, cspField) ← readConstructed Tags.sequence .der cspField
  let _ ← expectEnd "cspData" cspField
  let (keySpec, csp) ← readField 0 csp
  let (_, keySpec) ← readInteger .der Tags.integer keySpec
  let _ ← expectEnd "keySpec" keySpec
  let (_, csp) ← skipOctetsFields [1, 2, 3, 4] csp
  let _ ← expectEnd "TSCspDataDetail" csp
  let (_, seq) ← skipOctetsFields [2, 3] seq
  let _ ← expectEnd "TSSmartCardCreds" seq
  pure ()

def checkPackageCred : Parse Unit := do
  let seq ← readConstructed Tags.sequence .der
  let (_, seq) ← within (readOctetsField 0) seq
  let (_, seq) ← within (readOctetsField 1) seq
  let _ ← within (expectEnd "TSRemoteGuardPackageCred") seq
  pure ()

/-- The supplementalCreds; `room` more are accepted, and no loop runs longer than the input. -/
def checkSupplementalCreds : ℕ → ℕ → Reader → Result Unit
  | 0, _, _ => .ok ()
  | fuel + 1, room, list =>
    if list.empty then .ok ()
    else match room with
      | 0 => fail .limitExceeded "too many supplementalCreds" list.offset
      | room + 1 => do
        let (_, list) ← checkPackageCred list
        checkSupplementalCreds fuel room list

def readSupplementalCreds : Parse Unit := do
  let field ← readField 1
  let (list, field) ← within (readConstructed Tags.sequence .der) field
  let _ ← within (expectEnd "supplementalCreds") field
  checkSupplementalCreds (list.remaining + 1) maxSupplementalCreds list

def checkRemoteGuardCreds (r : Reader) : Result Unit := do
  let (seq, r) ← readConstructed Tags.sequence .der r
  let _ ← expectEnd "TSRemoteGuardCreds" r
  let (logon, seq) ← readField 0 seq
  let (_, logon) ← checkPackageCred logon
  let _ ← expectEnd "logonCred" logon
  let (_, seq) ← optionalField 1 readSupplementalCreds seq
  let _ ← expectEnd "TSRemoteGuardCreds" seq
  pure ()

def decodeTsCredentials (bytes : Bytes) : Result TsCredentials := do
  let (seq, r) ← readConstructed Tags.sequence .der ⟨bytes, 0⟩
  let _ ← expectEnd "TSCredentials" r
  let (typeField, seq) ← readField 0 seq
  let (type, after) ← readInteger .der Tags.integer typeField
  let _ ← expectEnd "credType" after
  let (credsField, seq) ← readField 1 seq
  let (creds, credsField) ← expectTlv Tags.octetString .der credsField
  let _ ← expectEnd "credentials" credsField
  let _ ← expectEnd "TSCredentials" seq
  if type = 1 then
    let password ← decodePasswordCreds creds.reader
    pure (.password password)
  else if type = 2 then
    let _ ← checkSmartCardCreds creds.reader
    pure (.smartCard creds.value)
  else if type = 6 then
    let _ ← checkRemoteGuardCreds creds.reader
    pure (.remoteGuard creds.value)
  else fail .unsupported "unknown TSCredentials credType" typeField.offset

/-- `credType` by alternative. -/
def TsCredentials.credType : TsCredentials → ℕ
  | .password _ => 1
  | .smartCard _ => 2
  | .remoteGuard _ => 6

/-- The contents of the `credentials` field. -/
def TsCredentials.inner : TsCredentials → Bytes
  | .password creds =>
    writeTlv Tags.sequence (writeOctetsField 0 creds.domainName ++ writeOctetsField 1 creds.userName ++
      writeOctetsField 2 creds.password)
  | .smartCard der => der
  | .remoteGuard der => der

def encodeTsCredentials (credentials : TsCredentials) : Bytes :=
  writeTlv Tags.sequence
    (writeTlv (context 0) (writeInteger credentials.credType) ++ writeOctetsField 1 credentials.inner)

/-- An authenticated principal as the client named it. -/
structure Identity where
  user : Text := []
  domain : Text := []
  deriving DecidableEq

/-- Password credentials delegated by the client. -/
structure PasswordCredentials where
  domain : Text
  user : Text
  password : Text
  deriving DecidableEq

def toPasswordCredentials (creds : TsPasswordCreds) : PasswordCredentials :=
  ⟨utf16leToUtf8 creds.domainName, utf16leToUtf8 creds.userName, utf16leToUtf8 creds.password⟩

/-! ### Frames of a growing stream -/

/-- A frame found in a prefix of the stream is the frame of the stream. -/
theorem frameTsRequest_append {stream : Bytes} {n : ℕ} (more : Bytes) (h : frameTsRequest stream = .ok (some n)) :
    frameTsRequest (stream ++ more) = .ok (some n) := by
  unfold frameTsRequest at h ⊢
  rcases htag : readTag .der ⟨stream, 0⟩ with e | ⟨tag, r⟩
  · simp only [htag] at h
    by_cases hc : e.code = .truncated <;> simp [hc] at h
  · rw [show (⟨stream ++ more, 0⟩ : Reader) = extend ⟨stream, 0⟩ more from rfl,
      (readTag_stable .der).ok more htag]
    simp only [htag] at h ⊢
    by_cases ht : tag ≠ Tags.sequence
    · rw [if_pos ht] at h
      cases h
    · rw [if_neg ht] at h ⊢
      rcases hlen : readLength .der r with e | ⟨length, r'⟩
      · simp only [hlen] at h
        by_cases hc : e.code = .truncated <;> simp [hc] at h
      · rw [(readLength_stable .der).ok more hlen]
        simp only [hlen] at h
        exact h

/-- A prefix that cannot be framed spoils the stream, in the same way. -/
theorem frameTsRequest_error_append {stream : Bytes} {e : Error} (more : Bytes) (h : frameTsRequest stream = .error e) :
    frameTsRequest (stream ++ more) = .error e := by
  unfold frameTsRequest at h ⊢
  rw [show (⟨stream ++ more, 0⟩ : Reader) = extend ⟨stream, 0⟩ more from rfl]
  rcases htag : readTag .der ⟨stream, 0⟩ with e' | ⟨tag, r⟩
  · simp only [htag] at h
    by_cases hc : e'.code = .truncated
    · simp [hc] at h
    · rw [(readTag_stable .der).error more htag hc]
      exact h
  · rw [(readTag_stable .der).ok more htag]
    simp only [htag] at h ⊢
    by_cases ht : tag ≠ Tags.sequence
    · rw [if_pos ht] at h ⊢
      exact h
    · rw [if_neg ht] at h ⊢
      rcases hlen : readLength .der r with e' | ⟨length, r'⟩
      · simp only [hlen] at h
        by_cases hc : e'.code = .truncated
        · simp [hc] at h
        · rw [(readLength_stable .der).error more hlen hc]
          exact h
      · rw [(readLength_stable .der).ok more hlen]
        simp only [hlen] at h
        exact h

theorem frameTsRequest_pos {stream : Bytes} {n : ℕ} (h : frameTsRequest stream = .ok (some n)) : 0 < n := by
  unfold frameTsRequest at h
  rcases htag : readTag .der ⟨stream, 0⟩ with e | ⟨tag, r⟩
  · simp only [htag] at h
    by_cases hc : e.code = .truncated <;> simp [hc] at h
  · simp only [htag] at h
    by_cases ht : tag ≠ Tags.sequence
    · rw [if_pos ht] at h
      cases h
    · rw [if_neg ht] at h
      rcases hlen : readLength .der r with e | ⟨length, r'⟩
      · simp only [hlen] at h
        by_cases hc : e.code = .truncated <;> simp [hc] at h
      · simp only [hlen] at h
        have hadv := (readLength_advances .der).le hlen
        by_cases hbig : length > maxTsRequestSize - r'.offset
        · rw [if_pos hbig] at h
          cases h
        · rw [if_neg hbig] at h
          cases h
          omega

end Credssp
end Auth
end Farland
