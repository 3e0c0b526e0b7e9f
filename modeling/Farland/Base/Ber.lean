/-
# ASN.1 basic and distinguished encoding rules

The decoder and the encoder of `base/ber.cpp`, as CredSSP and SPNEGO use them:
tags of at most three base-128 octets, definite lengths of at most four octets,
and the checks that `Rules.der` adds. Encoding always gives DER.

A tag and a length are read from the front of a stream that may still grow.
`readTag_stable` and `readLength_stable` say that what they found, a value or
an error other than a truncation, is found again when more bytes follow.
-/
import Farland.Base.Reader

namespace Farland

open Reader Parse

/-! ### Decoders of a growing stream -/

/-- The reader once more bytes have come in. -/
def Reader.extend (r : Reader) (more : List UInt8) : Reader := ⟨r.rest ++ more, r.offset⟩

/-- A step whose outcome, unless it lacks input, stays when more input follows. -/
structure Parse.Stable {α : Type} (x : Parse α) : Prop where
  ok : ∀ {r r' a} (more : List UInt8), x r = .ok (a, r') → x (r.extend more) = .ok (a, r'.extend more)
  error : ∀ {r e} (more : List UInt8), x r = .error e → e.code ≠ .truncated → x (r.extend more) = .error e

namespace Parse

variable {α β : Type}

theorem pure_stable (a : α) : Stable (pure a : Parse α) where
  ok := by
    intro r r' b more h
    cases h
    rfl
  error := by
    intro r e more h
    cases h

theorem fail_stable (code : Errc) (what : String) (offset : ℕ) : Stable (Parse.fail code what offset : Parse α) where
  ok := by
    intro r r' a more h
    cases h
  error := by
    intro r e more h _
    cases h
    rfl

theorem at_stable : Stable at_ where
  ok := by
    intro r r' a more h
    cases h
    rfl
  error := by
    intro r e more h
    cases h

theorem bytes_stable (n : ℕ) : Stable (bytes n) where
  ok := by
    intro r r' a more h
    unfold bytes at h ⊢
    by_cases hlen : r.rest.length < n
    · rw [if_pos hlen] at h
      cases h
    · rw [if_neg hlen] at h
      cases h
      have hmore : ¬ (r.extend more).rest.length < n := by simp [extend]; omega
      rw [if_neg hmore]
      simp [extend, List.drop_append_of_le_length, Nat.le_of_not_lt hlen]
  error := by
    intro r e more h hcode
    unfold bytes at h
    by_cases hlen : r.rest.length < n
    · rw [if_pos hlen] at h
      cases h
      exact absurd rfl hcode
    · rw [if_neg hlen] at h
      cases h

theorem readLe_stable (n : ℕ) : Stable (readLe n) where
  ok := by
    intro r r' a more h
    unfold readLe at h ⊢
    rcases hb : bytes n r with e | ⟨raw, r₁⟩
    · rw [hb] at h
      cases h
    · rw [hb] at h
      cases h
      rw [(bytes_stable n).ok more hb]
  error := by
    intro r e more h hcode
    unfold readLe at h ⊢
    rcases hb : bytes n r with e' | ⟨raw, r₁⟩
    · rw [hb] at h
      cases h
      rw [(bytes_stable n).error more hb hcode]
    · rw [hb] at h
      cases h

theorem u8_stable : Stable u8 := readLe_stable 1

variable {x : Parse α} {f : α → Parse β}

/-- A sequence of stable steps is stable. -/
theorem Stable.bind (hx : Stable x) (hf : ∀ a, Stable (f a)) : Stable (x >>= f) where
  ok := by
    intro r r' b more h
    obtain ⟨a, r₁, ha, hb⟩ := of_bind_ok h
    rw [bind_ok (hx.ok more ha)]
    exact (hf a).ok more hb
  error := by
    intro r e more h hcode
    change (Except.bind (x r) fun p => f p.1 p.2) = _ at h
    change (Except.bind (x (r.extend more)) fun p => f p.1 p.2) = _
    rcases hr : x r with e' | ⟨a, r₁⟩
    · rw [hr] at h
      cases h
      rw [hx.error more hr hcode]
      rfl
    · rw [hr] at h
      rw [hx.ok more hr]
      exact (hf a).error more h hcode

theorem Stable.ite {p : Prop} [Decidable p] {y : Parse α} (hx : Stable x) (hy : Stable y) :
    Stable (if p then x else y) := by
  by_cases hp : p
  · rwa [if_pos hp]
  · rwa [if_neg hp]

/-- A step that consumes at least `k` bytes. -/
structure Advances (k : ℕ) (x : Parse α) : Prop where
  le : ∀ {r r' a}, x r = .ok (a, r') → r.offset + k ≤ r'.offset

theorem pure_advances (a : α) : Advances 0 (pure a : Parse α) where
  le := by
    intro r r' b h
    cases h
    exact Nat.le_refl _

theorem fail_advances (k : ℕ) (code : Errc) (what : String) (offset : ℕ) :
    Advances k (Parse.fail code what offset : Parse α) where
  le := by
    intro r r' a h
    cases h

theorem at_advances : Advances 0 at_ where
  le := by
    intro r r' a h
    cases h
    exact Nat.le_refl _

theorem u8_advances : Advances 1 u8 where
  le := by
    intro r r' a h
    unfold u8 readLe bytes at h
    by_cases hlen : r.rest.length < 1
    · rw [if_pos hlen] at h
      cases h
    · rw [if_neg hlen] at h
      cases h
      exact Nat.le_refl _

/-- The first step consumes as much. -/
theorem Advances.bind {k : ℕ} (hx : Advances k x) (hf : ∀ a, Advances 0 (f a)) : Advances k (x >>= f) where
  le := by
    intro r r' b h
    obtain ⟨a, r₁, ha, hb⟩ := of_bind_ok h
    have h1 := hx.le ha
    have h2 := (hf a).le hb
    omega

/-- What follows consumes as much. -/
theorem Advances.then {k : ℕ} (hx : Advances 0 x) (hf : ∀ a, Advances k (f a)) : Advances k (x >>= f) where
  le := by
    intro r r' b h
    obtain ⟨a, r₁, ha, hb⟩ := of_bind_ok h
    have h1 := hx.le ha
    have h2 := (hf a).le hb
    omega

theorem Advances.ite {p : Prop} [Decidable p] {y : Parse α} {k : ℕ} (hx : Advances k x) (hy : Advances k y) :
    Advances k (if p then x else y) := by
  by_cases hp : p
  · rwa [if_pos hp]
  · rwa [if_neg hp]

theorem Advances.any {k : ℕ} (hx : Advances k x) : Advances 0 x where
  le := by
    intro r r' a hr
    have h1 := hx.le hr
    omega

end Parse

namespace Ber

open LittleEndian

inductive Rules where
  | ber
  | der
  deriving DecidableEq

inductive TagClass where
  | universal
  | application
  | context
  | privateUse
  deriving DecidableEq

/-- The class in the two top bits of a tag. -/
def TagClass.ofBits : ℕ → TagClass
  | 0 => .universal
  | 1 => .application
  | 2 => .context
  | _ => .privateUse

def TagClass.bits : TagClass → ℕ
  | .universal => 0
  | .application => 1
  | .context => 2
  | .privateUse => 3

structure Tag where
  cls : TagClass
  constructed : Bool
  number : ℕ
  deriving DecidableEq

namespace Tags

def integer : Tag := ⟨.universal, false, 2⟩
def bitString : Tag := ⟨.universal, false, 3⟩
def octetString : Tag := ⟨.universal, false, 4⟩
def objectIdentifier : Tag := ⟨.universal, false, 6⟩
def enumerated : Tag := ⟨.universal, false, 10⟩
def sequence : Tag := ⟨.universal, true, 16⟩

end Tags

/-- `[APPLICATION n]`. -/
def application (number : ℕ) : Tag := ⟨.application, true, number⟩

/-- `[n]`, context-specific. -/
def context (number : ℕ) : Tag := ⟨.context, true, number⟩

/-- Largest number of length octets accepted in the long form. -/
def maxLengthOctets : ℕ := 4

structure Tlv where
  tag : Tag
  value : List UInt8
  /-- Absolute offset of the first content octet. -/
  valueOffset : ℕ
  deriving DecidableEq

/-- A reader over the content octets, keeping absolute offsets. -/
def Tlv.reader (t : Tlv) : Reader := ⟨t.value, t.valueOffset⟩

/-! ### Decoding -/

/-- The octets of the high-tag-number form, of which at most `left` may follow. -/
def readTagNumber (start : ℕ) : ℕ → Bool → ℕ → Parse ℕ
  | 0, _, _ => Parse.fail .limitExceeded "tag number too large" start
  | left + 1, first, number => do
    let octet ← u8
    if first ∧ octet = 0x80 then Parse.fail .invalidValue "tag number has a leading zero octet" start
    else if octet &&& 0x80 = 0 then pure (number <<< 7 ||| octet &&& 0x7F)
    else readTagNumber start left false (number <<< 7 ||| octet &&& 0x7F)

def readTag (_rules : Rules) : Parse Tag := do
  let start ← at_
  let first ← u8
  if first &&& 0x1F ≠ 0x1F then
    pure ⟨.ofBits (first >>> 6), first &&& 0x20 ≠ 0, first &&& 0x1F⟩
  else
    let number ← readTagNumber start 3 true 0
    if number < 0x1F then Parse.fail .invalidValue "tag number below 31 in high-tag-number form" start
    else pure ⟨.ofBits (first >>> 6), first &&& 0x20 ≠ 0, number⟩

/-- `count` more length octets behind `length`. -/
def readLengthOctets : ℕ → ℕ → Parse ℕ
  | 0, length => pure length
  | count + 1, length => do
    let octet ← u8
    readLengthOctets count (length <<< 8 ||| octet)

variable (rules : Rules)

def readLength : Parse ℕ := do
  let start ← at_
  let first ← u8
  if first &&& 0x80 = 0 then pure first
  else if first &&& 0x7F = 0 then Parse.fail .unsupported "indefinite length" start
  else if first &&& 0x7F > maxLengthOctets then Parse.fail .limitExceeded "length uses too many octets" start
  else
    let length ← readLengthOctets (first &&& 0x7F) 0
    if rules = .der ∧ length < 0x80 then
      Parse.fail .invalidLength "DER length below 128 not in short form" start
    else if rules = .der ∧ length >>> (8 * ((first &&& 0x7F) - 1)) = 0 then
      Parse.fail .invalidLength "DER length has a leading zero octet" start
    else pure length

def readTlv : Parse Tlv := do
  let tag ← readTag rules
  let length ← readLength rules
  let valueOffset ← at_
  let value ← bytes length
  pure ⟨tag, value, valueOffset⟩

/-- `readTlv`, failing unless the tag is `expected`. -/
def expectTlv (expected : Tag) (rules : Rules) : Parse Tlv := do
  let start ← at_
  let tlv ← readTlv rules
  if tlv.tag ≠ expected then Parse.fail .invalidValue "unexpected tag" start else pure tlv

/-- The next tag, without consuming anything. -/
def peekTag : Parse Tag := fun r =>
  match readTag rules r with
  | .ok (tag, _) => .ok (tag, r)
  | .error e => .error e

/-- X.690 8.3.2: in a multi-octet INTEGER, the first nine bits must not be all zeros or all ones. -/
def redundantLeadingOctet (first second : UInt8) : Bool :=
  (first = 0x00 && second &&& 0x80 = 0) || (first = 0xFF && second &&& 0x80 ≠ 0)

def stripRedundant : List UInt8 → List UInt8
  | first :: second :: rest =>
    if redundantLeadingOctet first second then stripRedundant (second :: rest) else first :: second :: rest
  | digits => digits

def integerDigits (tlv : Tlv) (rules : Rules) : Result (List UInt8) :=
  if tlv.value = [] then fail .invalidLength "INTEGER has no content octets" tlv.valueOffset
  else if rules = .der ∧ (stripRedundant tlv.value).length ≠ tlv.value.length then
    fail .invalidValue "DER INTEGER is not minimally encoded" tlv.valueOffset
  else .ok (stripRedundant tlv.value)

/-- The octets shifted one after the other into a 64-bit word. -/
def shiftIn (bits : ℕ) (digits : List UInt8) : ℕ := digits.foldl (fun v b => (v <<< 8 ||| b.toNat) % 2 ^ 64) bits

/-- Whether the top bit of the first digit is set. -/
def leadsNegative (digits : List UInt8) : Bool := digits.headD 0 &&& 0x80 ≠ 0

def decodeInteger (tlv : Tlv) (rules : Rules) : Result ℤ := do
  let digits ← integerDigits tlv rules
  if digits.length > 8 then fail .limitExceeded "INTEGER does not fit in 64 bits" tlv.valueOffset
  else pure (toSigned 64 (shiftIn (if leadsNegative digits then 2 ^ 64 - 1 else 0) digits))

/-- The sign octet in front of a value with its top bit set. -/
def dropSign : List UInt8 → List UInt8
  | first :: second :: rest => if first = 0 then second :: rest else first :: second :: rest
  | digits => digits

/-- INTEGER that must be non-negative, up to `2 ^ 64 - 1`. -/
def decodeUnsigned (tlv : Tlv) (rules : Rules) : Result ℕ := do
  let digits ← integerDigits tlv rules
  if leadsNegative digits then
    fail .invalidValue "negative INTEGER where a non-negative one is required" tlv.valueOffset
  else if (dropSign digits).length > 8 then
    fail .limitExceeded "INTEGER does not fit in 64 bits" tlv.valueOffset
  else pure (shiftIn 0 (dropSign digits))

def readInteger (tag : Tag := Tags.integer) : Parse ℤ := do
  let tlv ← expectTlv tag rules
  decodeInteger tlv rules

def readUnsigned (tag : Tag := Tags.integer) : Parse ℕ := do
  let tlv ← expectTlv tag rules
  decodeUnsigned tlv rules

/-- Reads a TLV with the given tag and returns a reader over its contents. -/
def readConstructed (tag : Tag) (rules : Rules) : Parse Reader := do
  let tlv ← expectTlv tag rules
  pure tlv.reader

/-- A decoder run on a reader of its own: the outcome, and where it stopped. -/
def within {α : Type} (x : Parse α) (r : Reader) : Parse (α × Reader) := liftM (x r)

/-! ### Encoding -/

/-- A base-128 group of a tag number, with the bit that says another follows. -/
def tagGroups (number : ℕ) : List UInt8 :=
  let groups := [(number >>> 14) &&& 0x7F, (number >>> 7) &&& 0x7F].dropWhile (· = 0)
  groups.map (fun g => UInt8.ofNat (g ||| 0x80)) ++ [UInt8.ofNat (number &&& 0x7F)]

def writeTag (tag : Tag) : List UInt8 :=
  let leading := tag.cls.bits <<< 6 ||| (if tag.constructed then 0x20 else 0)
  if tag.number < 0x1F then [UInt8.ofNat (leading ||| tag.number)]
  else UInt8.ofNat (leading ||| 0x1F) :: tagGroups tag.number

/-- How many octets a `size_t` needs, of at most `fuel`. -/
def octetCount : ℕ → ℕ → ℕ
  | 0, _ => 0
  | fuel + 1, rest => if rest = 0 then 0 else octetCount fuel (rest >>> 8) + 1

/-- Lengths that need more than four octets are asserted not to occur. -/
def writeLength (length : ℕ) : List UInt8 :=
  if length < 0x80 then [UInt8.ofNat length]
  else
    let count := octetCount 8 length
    UInt8.ofNat (0x80 ||| count) :: (leBytes count length).reverse

def writeTlv (tag : Tag) (value : List UInt8) : List UInt8 := writeTag tag ++ writeLength value.length ++ value

def writeInteger (value : ℤ) (tag : Tag := Tags.integer) : List UInt8 :=
  writeTlv tag (stripRedundant (leBytes 8 (toUnsigned 64 value)).reverse)

/-- One extra leading zero octet keeps values with the top bit set positive. -/
def writeUnsigned (value : ℕ) (tag : Tag := Tags.integer) : List UInt8 :=
  writeTlv tag (stripRedundant (0 :: (leBytes 8 value).reverse))

def writeOctetString (value : List UInt8) (tag : Tag := Tags.octetString) : List UInt8 := writeTlv tag value

/-! ### The front of a growing stream -/

theorem readTagNumber_stable (start : ℕ) : ∀ (left : ℕ) (first : Bool) (number : ℕ),
    (readTagNumber start left first number).Stable
  | 0, _, _ => fail_stable _ _ _
  | left + 1, first, number => by
    unfold readTagNumber
    apply u8_stable.bind
    intro octet
    apply Parse.Stable.ite (fail_stable _ _ _)
    apply Parse.Stable.ite (pure_stable _)
    exact readTagNumber_stable start left false _

theorem readTag_stable : (readTag rules).Stable := by
  unfold readTag
  apply at_stable.bind
  intro start
  apply u8_stable.bind
  intro first
  apply Parse.Stable.ite (pure_stable _)
  apply (readTagNumber_stable start 3 true 0).bind
  intro number
  exact (fail_stable _ _ _).ite (pure_stable _)

theorem readLengthOctets_stable : ∀ count length : ℕ, (readLengthOctets count length).Stable
  | 0, _ => pure_stable _
  | count + 1, length => by
    unfold readLengthOctets
    apply u8_stable.bind
    intro octet
    exact readLengthOctets_stable count _

theorem readLength_stable : (readLength rules).Stable := by
  unfold readLength
  apply at_stable.bind
  intro start
  apply u8_stable.bind
  intro first
  apply Parse.Stable.ite (pure_stable _)
  apply Parse.Stable.ite (fail_stable _ _ _)
  apply Parse.Stable.ite (fail_stable _ _ _)
  apply (readLengthOctets_stable _ 0).bind
  intro length
  apply Parse.Stable.ite (fail_stable _ _ _)
  exact (fail_stable _ _ _).ite (pure_stable _)

theorem readLengthOctets_advances : ∀ count length : ℕ, (readLengthOctets count length).Advances 0
  | 0, _ => pure_advances _
  | count + 1, length => by
    unfold readLengthOctets
    apply u8_advances.any.bind
    intro octet
    exact readLengthOctets_advances count _

theorem readLength_advances : (readLength rules).Advances 1 := by
  unfold readLength
  apply at_advances.then
  intro start
  apply u8_advances.bind
  intro first
  apply (pure_advances _).ite
  apply (fail_advances _ _ _ _).ite
  apply (fail_advances _ _ _ _).ite
  apply (readLengthOctets_advances _ 0).bind
  intro length
  apply (fail_advances _ _ _ _).ite
  exact (fail_advances _ _ _ _).ite (pure_advances _)

end Ber
end Farland
