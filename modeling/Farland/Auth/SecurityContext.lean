/-
# Security contexts

What the CredSSP handshake calls (`auth/gss.hpp`): the contexts of a mechanism,
and SHA-256 for the binding hashes. A context may answer anything, so it is a
handle `c : C` whose calls read and change a world `W`; the world also decides
what mechanisms there are and what the owner of the handshake accepts.

`Trace` is the world with a record of what happened to it in order: every call
and its answer, the requests that came in and those that were sent. The record
is not part of the code, it is what the theorems are about.
-/
import Farland.Auth.TsRequest
import Farland.Lib.Handler

namespace Farland
namespace Auth
namespace Credssp

/-- One step of a security context: the token to send and whether the context is established. -/
structure Step where
  token : Bytes
  complete : Bool
  deriving DecidableEq

/-- The security contexts with handles `C` in a world `W`, and SHA-256. -/
structure Provider (C W : Type) where
  mechanism : C → W → Oid
  step : C → Bytes → W → Result Step × W
  wrap : C → Bytes → W → Bytes × W
  unwrap : C → Bytes → W → Result Bytes × W
  getMic : C → Bytes → W → Bytes × W
  verifyMic : C → Bytes → Bytes → W → Result Unit × W
  resetCipherState : C → W → W
  identity : C → W → Identity
  sha256 : Bytes → Hash

section Binding

variable (sha256 : Bytes → Hash)

/-- SHA-256 of the magic string with its NUL, the nonce and the key. -/
def bindingHash (magic : String) (nonce : Nonce) (key : Bytes) : Hash :=
    sha256 (text magic ++ [0] ++ nonce.toList ++ key)

def clientToServerHash (nonce : Nonce) (key : Bytes) : Hash :=
  bindingHash sha256 "CredSSP Client-To-Server Binding Hash" nonce key

def serverToClientHash (nonce : Nonce) (key : Bytes) : Hash :=
  bindingHash sha256 "CredSSP Server-To-Client Binding Hash" nonce key

end Binding

/-- [MS-CSSP] 3.1.5 step 4, versions 2 to 4: 1 is added to the first byte of the key. -/
def publicKeyPlusOne : Bytes → Bytes
  | [] => []
  | first :: rest => (first + 1) :: rest

/-- What happened, in order. -/
inductive Event (C : Type) where
  | received (request : TsRequest)
  /-- `make_mechanism` gave a context for the entry of mechTypes at `index`. -/
  | chose (index : ℕ) (oid : Oid) (c : C)
  | stepped (c : C) (input : Bytes) (answer : Result Step)
  | verifiedMic (c : C) (message mic : Bytes) (answer : Result Unit)
  | gotMic (c : C) (message mic : Bytes)
  | reset (c : C)
  | wrapped (c : C) (plaintext wrapped : Bytes)
  | unwrapped (c : C) (wrapped : Bytes) (answer : Result Bytes)
  /-- `accept_credentials` was asked about the delegated credentials. -/
  | asked (credentials : PasswordCredentials) (identity : Identity) (oid : Oid) (accepted : Bool)
  | sent (message : TsRequest)
  deriving DecidableEq

structure Trace (C W : Type) where
  world : W
  log : List (Event C) := []

namespace Trace

variable {C W : Type}

variable (t : Trace C W)

/-- The world after an event. -/
def record (w : W) (e : Event C) : Trace C W := ⟨w, t.log ++ [e]⟩

def note (e : Event C) : Trace C W := t.record t.world e

@[simp] theorem record_log (w : W) (e : Event C) : (t.record w e).log = t.log ++ [e] := rfl

@[simp] theorem note_log (e : Event C) : (t.note e).log = t.log ++ [e] := rfl

variable (env : Provider C W) (c : C)

def step (input : Bytes) (t : Trace C W) : Result Step × Trace C W :=
  let (answer, w) := env.step c input t.world
  (answer, t.record w (.stepped c input answer))

def verifyMic (message mic : Bytes) (t : Trace C W) : Result Unit × Trace C W :=
  let (answer, w) := env.verifyMic c message mic t.world
  (answer, t.record w (.verifiedMic c message mic answer))

def getMic (message : Bytes) (t : Trace C W) : Bytes × Trace C W :=
  let (mic, w) := env.getMic c message t.world
  (mic, t.record w (.gotMic c message mic))

def resetCipherState (t : Trace C W) : Unit × Trace C W := ((), t.record (env.resetCipherState c t.world) (.reset c))

def wrap (plaintext : Bytes) (t : Trace C W) : Bytes × Trace C W :=
  let (wrapped, w) := env.wrap c plaintext t.world
  (wrapped, t.record w (.wrapped c plaintext wrapped))

def unwrap (wrapped : Bytes) (t : Trace C W) : Result Bytes × Trace C W :=
  let (answer, w) := env.unwrap c wrapped t.world
  (answer, t.record w (.unwrapped c wrapped answer))

end Trace

/-- `describe(what, error)`. -/
def describe (what : String) (e : Error) : String := what ++ ": " ++ e.message

inductive Status where
  | inProgress
  | succeeded
  | failed
  deriving DecidableEq

end Credssp
end Auth
end Farland
