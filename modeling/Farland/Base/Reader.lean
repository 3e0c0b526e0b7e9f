/-
# Bounds-checked reading and infallible writing

`Reader` is the forward-only view over untrusted input that all decoders use
(`base/reader.hpp`): the unread bytes and the absolute offset of the next
one. A decoding step is a `Parse`, which either returns a value and the
reader behind what it consumed, or an `Error` with its category, its text and
the offset where the problem was found (`base/error.hpp`). `Writer` output
(`base/writer.hpp`) is a plain list of bytes; a fixed-width field is the
little-endian bytes of its value, so a value too large for its field is
truncated as the source's casts do.

Every `u8_append`-like lemma says that a reader in front of a field reads it
back and stands behind it.
-/
import Farland.Lib.LittleEndian

namespace Farland

/-- Category of a decoding failure. -/
inductive Errc where
  | truncated
  | invalidValue
  | invalidLength
  | unsupported
  | limitExceeded
  | trailingData
  | io
  deriving DecidableEq

def Errc.toString : Errc → String
  | .truncated => "truncated"
  | .invalidValue => "invalid value"
  | .invalidLength => "invalid length"
  | .unsupported => "unsupported"
  | .limitExceeded => "limit exceeded"
  | .trailingData => "trailing data"
  | .io => "I/O error"

/-- A decoding error: category, description and absolute byte offset. -/
structure Error where
  code : Errc
  what : String
  offset : ℕ := 0
  deriving DecidableEq

def Error.message (e : Error) : String :=
  e.code.toString ++ " at offset " ++ toString e.offset ++ ": " ++ e.what

abbrev Result (α : Type) := Except Error α

variable {α : Type}

/-- `fail(code, what, offset)`. -/
def fail (code : Errc) (what : String) (offset : ℕ := 0) : Result α :=
  .error ⟨code, what, offset⟩

/-- A `std::string`: bytes, in no particular encoding. -/
abbrev Text := List UInt8

instance : LawfulBEq Text := inferInstance

/-- The bytes of a string literal. -/
def text (s : String) : Text := s.toList.flatMap String.utf8EncodeChar

/-- `std::bit_cast` of an unsigned `w`-bit value to the signed type. -/
def toSigned (w v : ℕ) : ℤ := if v < 2 ^ (w - 1) then v else v - 2 ^ w

/-- `std::bit_cast` of a signed `w`-bit value to the unsigned type. -/
def toUnsigned (w : ℕ) (v : ℤ) : ℕ := (v % 2 ^ w).toNat

/-- The unread bytes and the absolute offset of the first of them. -/
structure Reader where
  rest : List UInt8
  offset : ℕ := 0
  deriving DecidableEq

/-- A step of a decoder. -/
abbrev Parse (α : Type) := StateT Reader (Except Error) α

namespace Reader

open LittleEndian

def remaining (r : Reader) : ℕ := r.rest.length

def empty (r : Reader) : Bool := r.rest.isEmpty

/-- Consumes `count` bytes. -/
def bytes (count : ℕ) : Parse (List UInt8) := fun r =>
  if r.rest.length < count then fail .truncated "unexpected end of input" r.offset
  else .ok (r.rest.take count, ⟨r.rest.drop count, r.offset + count⟩)

/-- Consumes `count` bytes and returns a reader limited to exactly those. -/
def sub (count : ℕ) : Parse Reader := fun r =>
  match bytes count r with
  | .ok (view, r') => .ok (⟨view, r.offset⟩, r')
  | .error e => .error e

def skip (count : ℕ) : Parse Unit := fun r =>
  match bytes count r with
  | .ok (_, r') => .ok ((), r')
  | .error e => .error e

/-- `read_le<T>` for a type of `n` bytes. -/
def readLe (n : ℕ) : Parse ℕ := fun r =>
  match bytes n r with
  | .ok (raw, r') => .ok (leValue raw, r')
  | .error e => .error e

/-- `read_be<T>` for a type of `n` bytes. -/
def readBe (n : ℕ) : Parse ℕ := fun r =>
  match bytes n r with
  | .ok (raw, r') => .ok (leValue raw.reverse, r')
  | .error e => .error e

def u8 : Parse ℕ := readLe 1
def u16le : Parse ℕ := readLe 2
def u32le : Parse ℕ := readLe 4
def u64le : Parse ℕ := readLe 8
def u16be : Parse ℕ := readBe 2

/-- Absolute offset of the next unread byte. -/
def at_ : Parse ℕ := fun r => .ok (r.offset, r)

/-- How many bytes are unread. -/
def left : Parse ℕ := fun r => .ok (r.remaining, r)

def atEnd : Parse Bool := fun r => .ok (r.empty, r)

/-- `count` elements, one after the other. -/
def readMany {α : Type} (readOne : Parse α) : ℕ → Parse (List α)
  | 0 => pure []
  | count + 1 => do
    let value ← readOne
    let rest ← readMany readOne count
    pure (value :: rest)

/-- Fails unless every byte has been consumed. -/
def expectEnd (what : String) : Parse Unit := fun r =>
  if r.rest = [] then .ok ((), r) else fail .trailingData what r.offset

/-! ### Reading back what stands in front -/

theorem bytes_append (a rest : List UInt8) (o : ℕ) :
    bytes a.length ⟨a ++ rest, o⟩ = .ok (a, ⟨rest, o + a.length⟩) := by
  simp [bytes]

theorem bytes_append' {n : ℕ} (a rest : List UInt8) (o : ℕ) (h : a.length = n) :
    bytes n ⟨a ++ rest, o⟩ = .ok (a, ⟨rest, o + n⟩) := by
  subst h
  exact bytes_append a rest o

theorem sub_append {n : ℕ} (a rest : List UInt8) (o : ℕ) (h : a.length = n) :
    sub n ⟨a ++ rest, o⟩ = .ok (⟨a, o⟩, ⟨rest, o + n⟩) := by
  rw [sub, bytes_append' a rest o h]

theorem skip_append {n : ℕ} (a rest : List UInt8) (o : ℕ) (h : a.length = n) :
    skip n ⟨a ++ rest, o⟩ = .ok ((), ⟨rest, o + n⟩) := by
  rw [skip, bytes_append' a rest o h]

theorem readLe_append_mod (n v : ℕ) (rest : List UInt8) (o : ℕ) :
    readLe n ⟨leBytes n v ++ rest, o⟩ = .ok (v % 256 ^ n, ⟨rest, o + n⟩) := by
  rw [readLe, bytes_append' _ _ _ (leBytes_length n v)]
  simp only [leValue_leBytes]

theorem readLe_append (n v : ℕ) (rest : List UInt8) (o : ℕ) (h : v < 256 ^ n) :
    readLe n ⟨leBytes n v ++ rest, o⟩ = .ok (v, ⟨rest, o + n⟩) := by
  rw [readLe_append_mod, Nat.mod_eq_of_lt h]

theorem u8_append (v : ℕ) (rest : List UInt8) (o : ℕ) (h : v < 256) :
    u8 ⟨leBytes 1 v ++ rest, o⟩ = .ok (v, ⟨rest, o + 1⟩) :=
  readLe_append 1 v rest o (by omega)

theorem u16le_append (v : ℕ) (rest : List UInt8) (o : ℕ) (h : v < 65536) :
    u16le ⟨leBytes 2 v ++ rest, o⟩ = .ok (v, ⟨rest, o + 2⟩) :=
  readLe_append 2 v rest o (by omega)

theorem u32le_append (v : ℕ) (rest : List UInt8) (o : ℕ) (h : v < 4294967296) :
    u32le ⟨leBytes 4 v ++ rest, o⟩ = .ok (v, ⟨rest, o + 4⟩) :=
  readLe_append 4 v rest o (by omega)

theorem expectEnd_nil (what : String) (o : ℕ) : expectEnd what ⟨[], o⟩ = .ok ((), ⟨[], o⟩) := rfl

end Reader

/-! ### Sequencing decoding steps -/

/-- A step that fails. -/
def Parse.fail (code : Errc) (what : String) (offset : ℕ) : Parse α := fun _ => Farland.fail code what offset

/-- A decoder run on a reader of its own. -/
def Parse.on (r : Reader) (p : Parse α) : Parse α := fun outer =>
  match p r with
  | .ok (a, _) => .ok (a, outer)
  | .error e => .error e

theorem Parse.bind_ok {β : Type} {x : Parse α} {f : α → Parse β} {r r' : Reader} {a : α} (h : x r = .ok (a, r')) :
    (x >>= f) r = f a r' := by
  change (Except.bind (x r) fun p => f p.1 p.2) = _
  rw [h]
  rfl

/-- A sequence that succeeds has a first step that does. -/
theorem Parse.of_bind_ok {β : Type} {x : Parse α} {f : α → Parse β} {r : Reader} {p : β × Reader}
    (h : (x >>= f) r = .ok p) : ∃ a r', x r = .ok (a, r') ∧ f a r' = .ok p := by
  change (Except.bind (x r) fun p => f p.1 p.2) = _ at h
  rcases hx : x r with e | ⟨a, r'⟩
  · rw [hx] at h
    cases h
  · rw [hx] at h
    exact ⟨a, r', rfl, h⟩

theorem Parse.pure_run (a : α) (r : Reader) : (pure a : Parse α) r = .ok (a, r) := rfl

/-- What holds of every element that is read holds of all of them. -/
theorem Reader.forall_readMany {readOne : Parse α} {P : α → Prop} (h : ∀ r a r', readOne r = .ok (a, r') → P a) :
    ∀ (count : ℕ) {r r' : Reader} {l : List α}, Reader.readMany readOne count r = .ok (l, r') → ∀ a ∈ l, P a
  | 0, r, r', l, hr => by
    cases hr
    simp
  | count + 1, r, r', l, hr => by
    obtain ⟨a, r₁, ha, hr⟩ := Parse.of_bind_ok hr
    obtain ⟨rest, r₂, hrest, hr⟩ := Parse.of_bind_ok hr
    cases hr
    intro x hx
    rcases List.mem_cons.mp hx with rfl | hx
    · exact h r x r₁ ha
    · exact forall_readMany h count hrest x hx

/-- A field of `n` bytes is below `256 ^ n`. -/
theorem Reader.readLe_lt {n : ℕ} {r r' : Reader} {v : ℕ} (h : Reader.readLe n r = .ok (v, r')) : v < 256 ^ n := by
  unfold Reader.readLe Reader.bytes at h
  split_ifs at h with hlen
  · cases h
  · cases h
    have hlt := LittleEndian.leValue_lt (r.rest.take n)
    rwa [List.length_take, Nat.min_eq_left (by omega)] at hlt

namespace Writer

open LittleEndian

variable (v : ℕ)

def u8 : List UInt8 := leBytes 1 v
def u16le : List UInt8 := leBytes 2 v
def u32le : List UInt8 := leBytes 4 v
def u64le : List UInt8 := leBytes 8 v
def u16be : List UInt8 := (leBytes 2 v).reverse
def zeros (n : ℕ) : List UInt8 := List.replicate n 0

@[simp] theorem u8_length : (u8 v).length = 1 := rfl
@[simp] theorem u16le_length : (u16le v).length = 2 := rfl
@[simp] theorem u32le_length : (u32le v).length = 4 := rfl
@[simp] theorem u64le_length : (u64le v).length = 8 := rfl
@[simp] theorem u16be_length : (u16be v).length = 2 := rfl
@[simp] theorem zeros_length (n : ℕ) : (zeros n).length = n := List.length_replicate

end Writer

/-- `FARLAND_ASSERT` in an encoder: `none` stands for the abort. -/
def asserts (p : Prop) [Decidable p] : Option Unit := if p then some () else none

theorem asserts_eq_some {p : Prop} [Decidable p] {u : Unit} : asserts p = some u ↔ p := by
  unfold asserts
  split_ifs with h
  · exact ⟨fun _ => h, fun _ => rfl⟩
  · exact ⟨fun hn => (by cases hn), fun hp => absurd hp h⟩

end Farland
