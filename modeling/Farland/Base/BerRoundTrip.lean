/-
# BER and DER, read back

What the encoder of `base/ber.cpp` writes, the decoder reads back under both
rule sets, and what the decoder accepts under DER is what the encoder writes.
Tags are canonical in BER too; a length is the shortest one, and a content of
an integer has no octet that says nothing, exactly if DER takes it.

The number that a list of content octets shifts into a word (`shiftIn_eq`) does
not change when a redundant octet is left out, and eight octets fill the word:
both directions of the integers are these two facts.

Key theorems: `readTag_inverse`, `readLength_took`, `ber_exact`.
-/
import Farland.Base.Ber
import Farland.Base.ReadBack
import Farland.Base.Text

namespace Farland
namespace Ber

open LittleEndian List Parse

/-- Largest tag number accepted: three base-128 octets. -/
def maxTagNumber : ℕ := 2 ^ 21 - 1

def decodeBoolean (tlv : Tlv) (rules : Rules) : Result Bool :=
  match tlv.value with
  | [value] =>
    if rules = .der ∧ value ≠ 0x00 ∧ value ≠ 0xFF then
      fail .invalidValue "DER BOOLEAN must be 0x00 or 0xFF" tlv.valueOffset
    else .ok (value ≠ 0)
  | _ => fail .invalidLength "BOOLEAN must have one content octet" tlv.valueOffset

variable (rules : Rules)

def readBoolean (tag : Tag := ⟨.universal, false, 1⟩) : Parse Bool := do
  let tlv ← expectTlv tag rules
  decodeBoolean tlv rules

def writeBoolean (value : Bool) (tag : Tag := ⟨.universal, false, 1⟩) : List UInt8 :=
  writeTlv tag [if value then 0xFF else 0x00]

/-! ### Tags -/

theorem shiftLeft_or {i b : ℕ} (h : b < 2 ^ i) (a : ℕ) : a <<< i ||| b = a * 2 ^ i + b := by
  rw [← Nat.shiftLeft_add_eq_or_of_lt h, Nat.shiftLeft_eq]

theorem shiftLeft_octet {b : ℕ} (h : b < 2 ^ 8) (a : ℕ) : a <<< 8 ||| b = a * 256 + b := shiftLeft_or h a

/-- Seven bits of a number, and a bit that says whether more follow. -/
theorem octet_split : ∀ v < 256, (v &&& 0x80 = 0 → v < 128 ∧ v &&& 0x7F = v) ∧
    (v &&& 0x80 ≠ 0 → (v &&& 0x7F) ||| 0x80 = v) := by
  decide +kernel

theorem octet_group : ∀ g < 128, g ||| 0x80 < 256 ∧ (g ||| 0x80) &&& 0x80 ≠ 0 ∧ (g ||| 0x80) &&& 0x7F = g ∧
    g &&& 0x80 = 0 ∧ g &&& 0x7F = g ∧ (g ||| 0x80 = 0x80 → g = 0) := by
  decide +kernel

theorem tagGroups_eq (number : ℕ) : tagGroups number =
    ([number / 2 ^ 14 % 2 ^ 7, number / 2 ^ 7 % 2 ^ 7].dropWhile (· = 0)).map (fun g => UInt8.ofNat (g ||| 0x80)) ++
      [UInt8.ofNat (number % 2 ^ 7)] := by
  rw [← Nat.and_two_pow_sub_one_eq_mod, ← Nat.and_two_pow_sub_one_eq_mod, ← Nat.and_two_pow_sub_one_eq_mod,
    ← Nat.shiftRight_eq_div_pow, ← Nat.shiftRight_eq_div_pow]
  rfl

theorem tagGroups_one {a : ℕ} (ha : a < 128) : tagGroups a = [UInt8.ofNat a] := by
  have h2 : a / 2 ^ 14 % 2 ^ 7 = 0 := by omega
  have h1 : a / 2 ^ 7 % 2 ^ 7 = 0 := by omega
  have h : a % 2 ^ 7 = a := Nat.mod_eq_of_lt ha
  rw [tagGroups_eq, h2, h1, h]
  rfl

theorem tagGroups_two {a b : ℕ} (ha : a < 128) (h0 : a ≠ 0) (hb : b < 128) :
    tagGroups (a * 2 ^ 7 + b) = [UInt8.ofNat (a ||| 0x80), UInt8.ofNat b] := by
  have h2 : (a * 2 ^ 7 + b) / 2 ^ 14 % 2 ^ 7 = 0 := by omega
  have h1 : (a * 2 ^ 7 + b) / 2 ^ 7 % 2 ^ 7 = a := by omega
  have h : (a * 2 ^ 7 + b) % 2 ^ 7 = b := by omega
  rw [tagGroups_eq, h2, h1, h]
  simp [h0]

theorem tagGroups_three {a b c : ℕ} (ha : a < 128) (h0 : a ≠ 0) (hb : b < 128) (hc : c < 128) :
    tagGroups ((a * 2 ^ 7 + b) * 2 ^ 7 + c) =
      [UInt8.ofNat (a ||| 0x80), UInt8.ofNat (b ||| 0x80), UInt8.ofNat c] := by
  have h2 : ((a * 2 ^ 7 + b) * 2 ^ 7 + c) / 2 ^ 14 % 2 ^ 7 = a := by omega
  have h1 : ((a * 2 ^ 7 + b) * 2 ^ 7 + c) / 2 ^ 7 % 2 ^ 7 = b := by omega
  have h : ((a * 2 ^ 7 + b) * 2 ^ 7 + c) % 2 ^ 7 = c := by omega
  rw [tagGroups_eq, h2, h1, h]
  simp [h0]

/-- An octet that is the last one of a number. -/
theorem readTagNumber_last (start left number : ℕ) (first : Bool) {g : ℕ} (hg : g < 128) :
    (readTagNumber start (left + 1) first number).ReadsBack [UInt8.ofNat g] (number * 2 ^ 7 + g) := by
  obtain ⟨-, -, -, hlast, hgroup, -⟩ := octet_group g hg
  unfold readTagNumber
  apply (u8_readsBack (show g < 2 ^ 8 by omega)).map
  have hnot : ¬ (first = true ∧ g = 0x80) := by omega
  rw [if_neg hnot, if_pos hlast, hgroup, shiftLeft_or hg]
  exact .pure _

variable {xs : List UInt8}

/-- An octet behind which more follow. -/
theorem readTagNumber_more {start left number g v : ℕ} {first : Bool} (hg : g < 128) (hzero : first = true → g ≠ 0)
    (h : (readTagNumber start left false (number * 2 ^ 7 + g)).ReadsBack xs v) :
    (readTagNumber start (left + 1) first number).ReadsBack (UInt8.ofNat (g ||| 0x80) :: xs) v := by
  obtain ⟨hlt, hmore, hgroup, -, -, hleading⟩ := octet_group g hg
  unfold readTagNumber
  apply (u8_readsBack hlt).bind
  have hnot : ¬ (first = true ∧ g ||| 0x80 = 0x80) := fun hboth => hzero hboth.1 (hleading hboth.2)
  rwa [if_neg hnot, if_neg hmore, hgroup, shiftLeft_or hg]

theorem readTagNumber_readsBack (start : ℕ) {number : ℕ} (h : number ≤ maxTagNumber) :
    (readTagNumber start 3 true 0).ReadsBack (tagGroups number) number := by
  unfold maxTagNumber at h
  obtain ⟨a, b, c, ha, hb, hc, rfl⟩ : ∃ a b c, a < 128 ∧ b < 128 ∧ c < 128 ∧ number = (a * 2 ^ 7 + b) * 2 ^ 7 + c :=
    ⟨number / 2 ^ 14, number / 2 ^ 7 % 2 ^ 7, number % 2 ^ 7, by omega, by omega, by omega, by omega⟩
  by_cases ha0 : a = 0
  · rw [ha0, Nat.zero_mul, zero_add]
    by_cases hb0 : b = 0
    · rw [hb0, Nat.zero_mul, zero_add, tagGroups_one hc]
      simpa only [Nat.zero_mul, zero_add] using readTagNumber_last start 2 0 true hc
    · rw [tagGroups_two hb hb0 hc]
      apply readTagNumber_more hb fun _ => hb0
      rw [Nat.zero_mul, zero_add]
      exact readTagNumber_last start 1 b false hc
  · rw [tagGroups_three ha ha0 hb hc]
    apply readTagNumber_more ha fun _ => ha0
    rw [Nat.zero_mul, zero_add]
    apply readTagNumber_more hb fun hfalse => by cases hfalse
    exact readTagNumber_last start 0 (a * 2 ^ 7 + b) false hc

/-- The groups of a number that was read. -/
theorem readTagNumber_took (start : ℕ) :
    (readTagNumber start 3 true 0).Took fun number xs => number ≤ maxTagNumber ∧ xs = tagGroups number := by
  have hlow : ∀ v < 256, v &&& 0x7F < 2 ^ 7 := fun v _ => Nat.and_lt_two_pow v (by decide)
  unfold readTagNumber
  apply u8_inverse.took.bind
  rintro a _ ⟨ha, rfl⟩
  refine .ite (fun _ => .fail _ _ _) fun hzero => .ite (fun hlast => .pure ?_) fun hmore => ?_
  · obtain ⟨hlt, hself⟩ := (octet_split a ha).1 hlast
    rw [Nat.zero_shiftLeft, Nat.zero_or, hself, tagGroups_one hlt]
    exact ⟨by unfold maxTagNumber; omega, rfl⟩
  · have ha0 : a &&& 0x7F ≠ 0 := by
      intro h0
      have hsplit := (octet_split a ha).2 hmore
      rw [h0, Nat.zero_or] at hsplit
      exact hzero ⟨rfl, hsplit.symm⟩
    unfold readTagNumber
    apply u8_inverse.took.bind
    rintro b _ ⟨hb, rfl⟩
    refine .ite (fun _ => .fail _ _ _) fun _ => .ite (fun hlast => .pure ?_) fun hmore' => ?_
    · obtain ⟨hlt, hself⟩ := (octet_split b hb).1 hlast
      rw [Nat.zero_shiftLeft, Nat.zero_or, hself, shiftLeft_or hlt, tagGroups_two (hlow a ha) ha0 hlt,
        (octet_split a ha).2 hmore]
      have := hlow a ha
      exact ⟨by unfold maxTagNumber; omega, rfl⟩
    · unfold readTagNumber
      apply u8_inverse.took.bind
      rintro c _ ⟨hc, rfl⟩
      refine .ite (fun _ => .fail _ _ _) fun _ => .ite (fun hlast => .pure ?_) fun _ => ?_
      · obtain ⟨hlt, hself⟩ := (octet_split c hc).1 hlast
        rw [Nat.zero_shiftLeft, Nat.zero_or, hself, shiftLeft_or (hlow b hb), shiftLeft_or hlt,
          tagGroups_three (hlow a ha) ha0 (hlow b hb) hlt, (octet_split a ha).2 hmore, (octet_split b hb).2 hmore']
        have := hlow a ha
        have := hlow b hb
        exact ⟨by unfold maxTagNumber; omega, rfl⟩
      · exact .fail _ _ _

/-- The first octet of a tag. -/
theorem leading_octet : ∀ (cls : TagClass) (constructed : Bool), ∀ n < 32,
    let first := cls.bits <<< 6 ||| (if constructed then 0x20 else 0) ||| n
    first < 256 ∧ first &&& 0x1F = n ∧ TagClass.ofBits (first >>> 6) = cls ∧ decide (first &&& 0x20 ≠ 0) = constructed
  | .universal, true => by decide
  | .universal, false => by decide
  | .application, true => by decide
  | .application, false => by decide
  | .context, true => by decide
  | .context, false => by decide
  | .privateUse, true => by decide
  | .privateUse, false => by decide

theorem leading_octet_split : ∀ first < 256,
    (TagClass.ofBits (first >>> 6)).bits <<< 6 ||| (if decide (first &&& 0x20 ≠ 0) then 0x20 else 0) ||| (first &&& 0x1F) =
      first := by
  decide +kernel

/-- **Tags are canonical**, under both rule sets. -/
theorem readTag_inverse : Inverse (readTag rules) writeTag (·.number ≤ maxTagNumber) where
  readsBack := by
    rintro ⟨cls, constructed, number⟩ h
    unfold readTag writeTag
    refine .at_ fun start => ?_
    by_cases hlow : number < 0x1F
    · obtain ⟨hlt, hn, hcls, hc⟩ := leading_octet cls constructed number (by omega)
      simp only [if_pos hlow]
      apply (u8_readsBack hlt).map
      rw [hn, hcls, hc, if_pos (by omega)]
      exact .pure _
    · obtain ⟨hlt, hn, hcls, hc⟩ := leading_octet cls constructed 31 (by omega)
      simp only [if_neg hlow]
      refine (u8_readsBack hlt).bind ?_
      rw [hn, hcls, hc, if_neg (by simp)]
      apply (readTagNumber_readsBack start h).map
      rw [if_neg hlow]
      exact .pure _
  took := by
    refine .at_ fun start => u8_inverse.took.bind ?_
    rintro first _ ⟨hlt, rfl⟩
    have hsplit := leading_octet_split first hlt
    refine .ite (fun hlow => .pure ?_) fun hhigh => (readTagNumber_took start).bind ?_
    · have hlt31 : first &&& 0x1F < 0x1F := by
        have := Nat.and_lt_two_pow first (show 0x1F < 2 ^ 5 by decide)
        omega
      refine ⟨by unfold maxTagNumber; simp only; omega, ?_⟩
      unfold writeTag
      rw [if_pos hlt31]
      simp only [hsplit]
      rfl
    · rintro number _ ⟨hnumber, rfl⟩
      refine .ite (fun _ => .fail _ _ _) fun hlow => .pure ⟨hnumber, ?_⟩
      unfold writeTag
      rw [if_neg hlow, append_nil]
      rw [not_not.mp hhigh] at hsplit
      simp only [hsplit]
      rfl

/-! ### Lengths -/

theorem leBytes_succ : ∀ count v : ℕ, leBytes (count + 1) v = leBytes count v ++ [UInt8.ofNat (v / 256 ^ count)]
  | 0, v => by simp [leBytes]
  | count + 1, v => by
    rw [leBytes, leBytes_succ count, Nat.shiftRight_eq_div_pow, Nat.div_div_eq_div_mul, ← pow_succ' 256 count, leBytes,
      Nat.shiftRight_eq_div_pow]
    rfl

theorem readLengthOctets_readsBack : ∀ {count v : ℕ} (length : ℕ), v < 256 ^ count →
    (readLengthOctets count length).ReadsBack (leBytes count v).reverse (length * 256 ^ count + v)
  | 0, v, length, h => by
    obtain rfl : v = 0 := by omega
    rw [pow_zero, Nat.mul_one]
    exact .pure length
  | count + 1, v, length, h => by
    have hpos : 0 < 256 ^ count := Nat.pow_pos (by decide)
    have hoctet : v / 256 ^ count < 2 ^ 8 := Nat.div_lt_of_lt_mul (pow_succ 256 count ▸ h)
    have ih := readLengthOctets_readsBack (length * 256 + v / 256 ^ count) (Nat.mod_lt v hpos)
    have hsum : (length * 256 + v / 256 ^ count) * 256 ^ count + v % 256 ^ count = length * 256 ^ (count + 1) + v := by
      have hdiv := Nat.div_add_mod' v (256 ^ count)
      rw [Nat.add_mul, Nat.add_assoc, hdiv, Nat.mul_assoc, pow_succ' 256 count]
    rw [leBytes_mod, hsum] at ih
    rw [leBytes_succ, reverse_append]
    unfold readLengthOctets
    refine (u8_readsBack hoctet).bind ?_
    rwa [shiftLeft_octet hoctet]

theorem readLengthOctets_took : ∀ count length : ℕ, (readLengthOctets count length).Took fun v xs =>
    ∃ n < 256 ^ count, v = length * 256 ^ count + n ∧ xs = (leBytes count n).reverse
  | 0, length => .pure ⟨0, by simp, by simp, rfl⟩
  | count + 1, length => by
    unfold readLengthOctets
    apply u8_inverse.took.bind
    rintro octet _ ⟨hoctet, rfl⟩
    apply (readLengthOctets_took count _).imp
    rintro v _ ⟨n, hn, rfl, rfl⟩
    have hpos : 0 < 256 ^ count := Nat.pow_pos (by decide)
    refine ⟨octet * 256 ^ count + n, ?_, ?_, ?_⟩
    · have : (octet + 1) * 256 ^ count ≤ 2 ^ 8 * 256 ^ count := Nat.mul_le_mul_right _ hoctet
      rw [pow_succ']
      rw [Nat.add_mul] at this
      omega
    · rw [shiftLeft_octet hoctet, Nat.add_mul, Nat.mul_assoc, ← pow_succ' 256 count, Nat.add_assoc]
    · have hdiv : (octet * 256 ^ count + n) / 256 ^ count = octet := by
        rw [Nat.mul_comm, Nat.mul_add_div hpos, Nat.div_eq_of_lt hn, Nat.add_zero]
      have hmod : (octet * 256 ^ count + n) % 256 ^ count = n := by
        rw [Nat.mul_add_mod', Nat.mod_eq_of_lt hn]
      rw [leBytes_succ, hdiv, ← leBytes_mod count (octet * 256 ^ count + n), hmod, reverse_append]
      rfl

theorem octetCount_eq : ∀ {count fuel n : ℕ}, count < fuel → 256 ^ count ≤ n → n < 256 ^ (count + 1) →
    octetCount fuel n = count + 1
  | _, 0, _, h, _, _ => absurd h (by omega)
  | 0, fuel + 1, n, _, hlo, hhi => by
    have hzero : n >>> 8 = 0 := by omega
    have hnil : octetCount fuel 0 = 0 := by cases fuel <;> rfl
    rw [octetCount, if_neg (by omega), hzero, hnil]
  | count + 1, fuel + 1, n, h, hlo, hhi => by
    have hpos : 0 < 256 ^ (count + 1) := Nat.pow_pos (by decide)
    rw [octetCount, if_neg (by omega), Nat.shiftRight_eq_div_pow,
      octetCount_eq (Nat.lt_of_succ_lt_succ h) ((Nat.le_div_iff_mul_le (by decide)).mpr (by rwa [← pow_succ]))
        (Nat.div_lt_of_lt_mul (by rwa [← pow_succ']))]

/-- A length in the long form, with as few octets as it needs. -/
theorem writeLength_long {count n : ℕ} (hcount : count < 4) (h : 0x80 ≤ n) (hlo : 256 ^ count ≤ n)
    (hhi : n < 256 ^ (count + 1)) :
    writeLength n = UInt8.ofNat (0x80 ||| (count + 1)) :: (leBytes (count + 1) n).reverse := by
  have hoctets : octetCount 8 n = count + 1 := octetCount_eq (by omega) hlo hhi
  rw [writeLength, if_neg (by omega), hoctets]

theorem octets_of_length {n : ℕ} (h : n < 2 ^ 32) : n = 0 ∨ ∃ count < 4, 256 ^ count ≤ n ∧ n < 256 ^ (count + 1) := by
  by_cases h0 : n = 0
  · exact .inl h0
  · by_cases h1 : n < 256
    · exact .inr ⟨0, by omega, by omega, h1⟩
    · by_cases h2 : n < 256 ^ 2
      · exact .inr ⟨1, by omega, by omega, h2⟩
      · by_cases h3 : n < 256 ^ 3
        · exact .inr ⟨2, by omega, by omega, h3⟩
        · exact .inr ⟨3, by omega, by omega, by omega⟩

/-- The count in front of a length in the long form. -/
theorem count_octet : ∀ count < 4, 0x80 ||| (count + 1) < 2 ^ 8 ∧ (0x80 ||| (count + 1)) &&& 0x80 ≠ 0 ∧
    (0x80 ||| (count + 1)) &&& 0x7F = count + 1 := by
  decide

theorem shiftRight_octets (n count : ℕ) : n >>> (8 * count) = n / 256 ^ count := by
  rw [Nat.shiftRight_eq_div_pow, pow_mul]
  rfl

theorem readLength_readsBack {n : ℕ} (h : n < 2 ^ 32) :
    (readLength rules).ReadsBack (writeLength n) n := by
  unfold readLength
  refine .at_ fun start => ?_
  by_cases hshort : n < 0x80
  · rw [writeLength, if_pos hshort]
    apply (u8_readsBack (show n < 2 ^ 8 by omega)).map
    rw [if_pos (octet_group n hshort).2.2.2.1]
    exact .pure n
  · obtain rfl | ⟨count, hcount, hlo, hhi⟩ := octets_of_length h
    · omega
    · obtain ⟨hlt, hlong, hlow⟩ := count_octet count hcount
      rw [writeLength_long hcount (by omega) hlo hhi]
      refine (u8_readsBack hlt).bind ?_
      have hn := readLengthOctets_readsBack 0 hhi
      rw [Nat.zero_mul, Nat.zero_add] at hn
      rw [if_neg hlong, hlow, if_neg (by omega), if_neg (by unfold maxLengthOctets; omega)]
      apply hn.map
      have hfull : ¬ n / 256 ^ count = 0 := by
        rw [Nat.div_eq_zero_iff]
        have : 0 < 256 ^ count := Nat.pow_pos (by decide)
        omega
      rw [if_neg (fun hder => hshort hder.2), Nat.add_sub_cancel, shiftRight_octets, if_neg (fun hder => hfull hder.2)]
      exact .pure n

/-- **Lengths are canonical** under DER. -/
theorem readLength_took : (readLength .der).Took fun n xs => n < 2 ^ 32 ∧ xs = writeLength n := by
  unfold readLength
  refine .at_ fun start => u8_inverse.took.bind ?_
  rintro first _ ⟨hfirst, rfl⟩
  obtain ⟨hshort, hlong⟩ := octet_split first hfirst
  refine .ite (fun hclear => .pure ?_) fun hset => .ite (fun _ => .fail _ _ _) fun hcount =>
    .ite (fun _ => .fail _ _ _) fun hmax => (readLengthOctets_took _ 0).bind ?_
  · obtain ⟨hlt, -⟩ := hshort hclear
    rw [writeLength, if_pos hlt]
    exact ⟨by omega, rfl⟩
  · rintro _ _ ⟨n, hn, rfl, rfl⟩
    refine .ite (fun _ => .fail _ _ _) fun hlow => .ite (fun _ => .fail _ _ _) fun hfull => .pure ?_
    obtain ⟨count, hsucc⟩ := Nat.exists_eq_succ_of_ne_zero hcount
    have hoctet := hlong hset
    rw [hsucc] at hn hfull hmax hoctet ⊢
    rw [Nat.zero_mul, Nat.zero_add] at hlow hfull ⊢
    rw [Nat.succ_sub_one, shiftRight_octets] at hfull
    have hlo : 256 ^ count ≤ n := by
      by_contra hless
      exact hfull ⟨rfl, Nat.div_eq_of_lt (by omega)⟩
    have hhi : 0x80 ≤ n := by
      by_contra hless
      exact hlow ⟨rfl, by omega⟩
    unfold maxLengthOctets at hmax
    have hmono : 256 ^ (count + 1) ≤ 256 ^ 4 := Nat.pow_le_pow_right (by decide) (by omega)
    refine ⟨by omega, ?_⟩
    rw [writeLength_long (by omega) hhi hlo hn, ← hoctet, Nat.or_comm, append_nil]
    rfl

/-! ### A whole TLV -/

theorem readTlv_writeTlv {tag : Tag} (htag : tag.number ≤ maxTagNumber) {value : List UInt8}
    (hvalue : value.length < 2 ^ 32) (rest : List UInt8) (o : ℕ) :
    readTlv rules ⟨writeTlv tag value ++ rest, o⟩ =
      .ok (⟨tag, value, o + (writeTag tag ++ writeLength value.length).length⟩, ⟨rest, o + (writeTlv tag value).length⟩) := by
  unfold readTlv writeTlv
  rw [append_assoc, append_assoc, Parse.bind_ok ((readTag_inverse rules).readsBack htag _ o),
    Parse.bind_ok (readLength_readsBack rules hvalue _ _)]
  change (Reader.bytes value.length >>= fun value => (pure ⟨tag, value, _⟩ : Parse Tlv)) ⟨value ++ rest, _⟩ = _
  rw [Parse.bind_ok (bytes_readsBack value rest _)]
  simp only [length_append, add_assoc]
  rfl

/-- **DER is canonical.** -/
theorem readTlv_took : (readTlv .der).Took fun t xs =>
    t.tag.number ≤ maxTagNumber ∧ t.value.length < 2 ^ 32 ∧ xs = writeTlv t.tag t.value := by
  unfold readTlv
  apply (readTag_inverse .der).took.bind
  rintro tag _ ⟨htag, rfl⟩
  apply readLength_took.bind
  rintro length _ ⟨hlength, rfl⟩
  refine .at_ fun offset => (bytes_took length).bind ?_
  rintro value _ ⟨rfl, rfl⟩
  exact .pure ⟨htag, hlength, by rw [writeTlv, append_nil, append_assoc]⟩

section

variable {tag : Tag} (rules : Rules) (htag : tag.number ≤ maxTagNumber) {α : Type} {decode : Tlv → Result α}
  {value : List UInt8} {a : α}

include htag

/-- A value behind its tag and length. -/
theorem expectTlv_readsBack (hvalue : value.length < 2 ^ 32) (h : ∀ offset, decode ⟨tag, value, offset⟩ = .ok a) :
    (do let tlv ← expectTlv tag rules; decode tlv : Parse α).ReadsBack (writeTlv tag value) a := by
  intro rest o
  have hread := readTlv_writeTlv rules htag hvalue rest o
  have hexpect : expectTlv tag rules ⟨writeTlv tag value ++ rest, o⟩ = readTlv rules ⟨writeTlv tag value ++ rest, o⟩ := by
    change (readTlv rules >>= fun tlv => if tlv.tag ≠ tag then _ else pure tlv) _ = _
    rw [Parse.bind_ok hread, hread, if_neg (by simp)]
    rfl
  rw [Parse.bind_ok (hexpect.trans hread), h]
  rfl

theorem readBoolean_readsBack (b : Bool) : (readBoolean rules tag).ReadsBack (writeBoolean b tag) b := by
  apply expectTlv_readsBack rules htag (by simp)
  intro offset
  cases b <;> cases rules <;> rfl

end

/-! ### The octets of an integer -/

variable (digits : List UInt8)

/-- The octet that says nothing in front of these. -/
def signOctet : UInt8 := if leadsNegative digits then 0xFF else 0x00

/-- What the digits are shifted into. -/
def signWord : ℕ := if leadsNegative digits then 2 ^ 64 - 1 else 0

theorem redundantLeadingOctet_iff {first second : UInt8} {rest : List UInt8} :
    redundantLeadingOctet first second = true ↔ first = signOctet (second :: rest) := by
  unfold redundantLeadingOctet signOctet leadsNegative
  by_cases h : second &&& 0x80 = 0 <;> simp [h]

@[simp] theorem leadsNegative_sign (xs : List UInt8) :
    leadsNegative (signOctet digits :: xs) = leadsNegative digits := by
  unfold signOctet
  cases leadsNegative digits with
  | false => exact (by decide : decide ((0x00 : UInt8) &&& 0x80 ≠ 0) = false)
  | true => exact (by decide : decide ((0xFF : UInt8) &&& 0x80 ≠ 0) = true)

theorem shiftIn_sign (xs : List UInt8) :
    shiftIn (signWord digits) (signOctet digits :: xs) = shiftIn (signWord digits) xs := by
  have hword : (signWord digits <<< 8 ||| (signOctet digits).toNat) % 2 ^ 64 = signWord digits := by
    unfold signWord signOctet
    cases leadsNegative digits <;> rfl
  rw [shiftIn, foldl_cons, hword]
  rfl

theorem stripRedundant_sign {digits : List UInt8} (h : digits ≠ []) :
    stripRedundant (signOctet digits :: digits) = stripRedundant digits := by
  cases digits with
  | nil => exact absurd rfl h
  | cons second rest => rw [stripRedundant, if_pos (redundantLeadingOctet_iff.mpr rfl)]

/-- What is left of the digits is as good as they are. -/
structure Stripped (digits stripped : List UInt8) : Prop where
  suffix : stripped <:+ digits
  ne_nil : digits ≠ [] → stripped ≠ []
  sign : leadsNegative stripped = leadsNegative digits
  value : shiftIn (signWord digits) stripped = shiftIn (signWord digits) digits
  again : stripRedundant stripped = stripped

theorem stripRedundant_spec : Stripped digits (stripRedundant digits) := by
  fun_induction stripRedundant digits with
  | case1 first second rest h ih =>
    have hfirst : first = signOctet (second :: rest) := redundantLeadingOctet_iff.mp h
    have hsign : leadsNegative (first :: second :: rest) = leadsNegative (second :: rest) := by
      rw [hfirst, leadsNegative_sign]
    have hword : signWord (first :: second :: rest) = signWord (second :: rest) := by
      unfold signWord
      rw [hsign]
    refine ⟨ih.suffix.trans (suffix_cons _ _), fun _ => ih.ne_nil (by simp), ih.sign.trans hsign.symm, ?_, ih.again⟩
    rw [hword, ih.value]
    conv_rhs => rw [hfirst]
    rw [shiftIn_sign]
  | case2 first second rest h =>
    exact ⟨suffix_rfl, id, rfl, rfl, by rw [stripRedundant, if_neg h]⟩
  | case3 digits h =>
    exact ⟨suffix_rfl, id, rfl, rfl, by rw [stripRedundant]; exact h⟩

theorem padded_spec {digits : List UInt8} (h : digits ≠ []) : ∀ k : ℕ,
    stripRedundant (replicate k (signOctet digits) ++ digits) = stripRedundant digits ∧
      shiftIn (signWord digits) (replicate k (signOctet digits) ++ digits) = shiftIn (signWord digits) digits ∧
      signOctet (replicate k (signOctet digits) ++ digits) = signOctet digits
  | 0 => ⟨rfl, rfl, rfl⟩
  | k + 1 => by
    obtain ⟨hstrip, hvalue, hsign⟩ := padded_spec h k
    have hne : replicate k (signOctet digits) ++ digits ≠ [] := by simp [h]
    refine ⟨?_, ?_, ?_⟩
    · have hone := stripRedundant_sign hne
      rw [hsign] at hone
      exact hone.trans hstrip
    · rw [replicate_succ, cons_append, shiftIn_sign, hvalue]
    · rw [replicate_succ, cons_append, signOctet, leadsNegative_sign]
      rfl

/-! ### Eight octets fill a word -/

theorem leValue_concat : ∀ (xs : List UInt8) (b : UInt8), leValue (xs ++ [b]) = leValue xs + b.toNat * 256 ^ xs.length
  | [], b => by simp [leValue]
  | x :: xs, b => by
    rw [cons_append, leValue, leValue, leValue_concat xs b, length_cons, pow_succ]
    ring

theorem shiftIn_eq : ∀ (xs : List UInt8) (bits : ℕ),
    shiftIn bits xs % 2 ^ 64 = (bits * 256 ^ xs.length + leValue xs.reverse) % 2 ^ 64
  | [], bits => by simp [shiftIn, leValue]
  | b :: xs, bits => by
    have ih := shiftIn_eq xs ((bits <<< 8 ||| b.toNat) % 2 ^ 64)
    have hstep : shiftIn bits (b :: xs) = shiftIn ((bits <<< 8 ||| b.toNat) % 2 ^ 64) xs := rfl
    rw [hstep, ih, shiftLeft_octet b.toNat_lt, reverse_cons, leValue_concat, length_reverse, length_cons, pow_succ',
      Nat.add_mod, Nat.mod_mul_mod, ← Nat.add_mod]
    congr 1
    ring

theorem shiftIn_lt : ∀ {xs : List UInt8} {bits : ℕ}, bits < 2 ^ 64 → shiftIn bits xs < 2 ^ 64
  | [], _, h => h
  | b :: xs, bits, _ => by
    have hstep : (bits <<< 8 ||| b.toNat) % 2 ^ 64 < 2 ^ 64 := Nat.mod_lt _ (by decide)
    exact (shiftIn_lt hstep : shiftIn _ xs < _)

/-- Whatever was in the word before. -/
theorem shiftIn_word (h : xs.length = 8) {bits : ℕ} (hbits : bits < 2 ^ 64) : shiftIn bits xs = leValue xs.reverse := by
  have heq := shiftIn_eq xs bits
  have hlt := leValue_lt xs.reverse
  rw [length_reverse, h] at hlt
  have hword : 256 ^ 8 = 2 ^ 64 := by norm_num
  rw [h, hword, Nat.mul_add_mod', Nat.mod_eq_of_lt (shiftIn_lt hbits), Nat.mod_eq_of_lt (hword ▸ hlt)] at heq
  exact heq

/-- The octets of a word, most significant first. -/
def octets (word : ℕ) : List UInt8 := (leBytes 8 word).reverse

theorem octets_length (word : ℕ) : (octets word).length = 8 := by simp [octets]

theorem shiftIn_octets {word bits : ℕ} (hword : word < 2 ^ 64) (hbits : bits < 2 ^ 64) :
    shiftIn bits (octets word) = word := by
  rw [shiftIn_word (octets_length word) hbits, octets, reverse_reverse, leValue_leBytes]
  exact Nat.mod_eq_of_lt hword

theorem octets_shiftIn (h : xs.length = 8) {bits : ℕ} (hbits : bits < 2 ^ 64) : octets (shiftIn bits xs) = xs := by
  rw [shiftIn_word h hbits, octets, leBytes_leValue 8 _ (by simp [h]), take_of_length_le (by simp [h]), reverse_reverse]

theorem signWord_lt : signWord digits < 2 ^ 64 := by
  unfold signWord
  split_ifs <;> decide

/-! ### Integers -/

variable {tlv : Tlv}

theorem integerDigits_strip (h : tlv.value = stripRedundant xs) (hne : xs ≠ []) (rules : Rules) :
    integerDigits tlv rules = .ok (stripRedundant xs) := by
  have hspec := stripRedundant_spec xs
  unfold integerDigits
  rw [h, hspec.again, if_neg (hspec.ne_nil hne), if_neg (fun hder => hder.2 rfl)]

/-- What DER takes has no redundant octet. -/
theorem integerDigits_der {digits : List UInt8} (h : integerDigits tlv .der = .ok digits) :
    digits = tlv.value ∧ tlv.value ≠ [] ∧ stripRedundant tlv.value = tlv.value := by
  unfold integerDigits at h
  split_ifs at h with hnil hlen
  · cases h
  · cases h
  · have hsame : stripRedundant tlv.value = tlv.value :=
      (stripRedundant_spec tlv.value).suffix.eq_of_length (by_contra fun hne => hlen ⟨rfl, hne⟩)
    cases h
    exact ⟨hsame, hnil, hsame⟩

theorem decodeInteger_strip {word : ℕ} (hword : word < 2 ^ 64) (h : tlv.value = stripRedundant (octets word))
    (rules : Rules) : decodeInteger tlv rules = .ok (toSigned 64 word) := by
  have hspec := stripRedundant_spec (octets word)
  have hne : octets word ≠ [] := ne_nil_of_length_eq_add_one (octets_length word)
  have hlen := hspec.suffix.length_le
  rw [octets_length] at hlen
  have hsign : signWord (octets word) = if leadsNegative (stripRedundant (octets word)) then 2 ^ 64 - 1 else 0 := by
    rw [hspec.sign, signWord]
  have hvalue := hspec.value
  rw [shiftIn_octets hword (signWord_lt _), hsign] at hvalue
  unfold decodeInteger
  rw [integerDigits_strip h hne]
  change (if 8 < (stripRedundant (octets word)).length then _ else _) = _
  rw [if_neg (by omega), hvalue]
  rfl

/-- **Integers are canonical** under DER. -/
theorem decodeInteger_der {v : ℤ} (h : decodeInteger tlv .der = .ok v) (tag : Tag) :
    writeInteger v tag = writeTlv tag tlv.value := by
  unfold decodeInteger at h
  rcases hd : integerDigits tlv .der with e | digits
  · rw [hd] at h
    cases h
  · obtain ⟨rfl, hne, hstrip⟩ := integerDigits_der hd
    rw [hd] at h
    change (if 8 < tlv.value.length then _ else pure (toSigned 64 (shiftIn (signWord tlv.value) tlv.value))) = _ at h
    split_ifs at h with hlong
    · cases h
    obtain rfl := Except.ok.inj h
    obtain ⟨hpad, hshift, -⟩ := padded_spec hne (8 - tlv.value.length)
    have hlen : (replicate (8 - tlv.value.length) (signOctet tlv.value) ++ tlv.value).length = 8 := by
      rw [length_append, length_replicate]
      omega
    have hoctets := octets_shiftIn hlen (signWord_lt tlv.value)
    rw [hshift] at hoctets
    have hlt : shiftIn (signWord tlv.value) tlv.value < 2 ^ 64 := shiftIn_lt (signWord_lt _)
    unfold writeInteger
    rw [toUnsigned_toSigned hlt]
    change writeTlv tag (stripRedundant (octets (shiftIn (signWord tlv.value) tlv.value))) = _
    rw [hoctets, hpad, hstrip]

theorem leadsNegative_zero (xs : List UInt8) : leadsNegative (0 :: xs) = false :=
  (by decide : decide ((0x00 : UInt8) &&& 0x80 ≠ 0) = false)

theorem dropSign_cases : digits = 0 :: dropSign digits ∨ dropSign digits = digits := by
  unfold dropSign
  split
  · split_ifs with h
    · exact .inl (by rw [h])
    · exact .inr rfl
  · exact .inr rfl

theorem dropSign_zero {digits : List UInt8} (h : digits ≠ []) : dropSign (0 :: digits) = digits := by
  cases digits with
  | nil => exact absurd rfl h
  | cons first rest => rfl

theorem shiftIn_dropSign : shiftIn 0 (dropSign digits) = shiftIn 0 digits := by
  rcases dropSign_cases digits with h | h
  · conv_rhs => rw [h]
    rfl
  · rw [h]

theorem decodeUnsigned_strip {word : ℕ} (hword : word < 2 ^ 64) (h : tlv.value = stripRedundant (0 :: octets word))
    (rules : Rules) : decodeUnsigned tlv rules = .ok word := by
  have hspec := stripRedundant_spec (0 :: octets word)
  have hpositive : leadsNegative (stripRedundant (0 :: octets word)) = false := by
    rw [hspec.sign, leadsNegative_zero]
  have hlen : (dropSign (stripRedundant (0 :: octets word))).length ≤ 8 := by
    rcases suffix_cons_iff.mp hspec.suffix with h | h
    · rw [h, dropSign_zero (ne_nil_of_length_eq_add_one (octets_length word)), octets_length]
    · have hle := h.length_le
      rw [octets_length] at hle
      rcases dropSign_cases (stripRedundant (0 :: octets word)) with h | h
      · have := congrArg length h
        rw [length_cons] at this
        omega
      · rwa [h]
  have hvalue := hspec.value
  have hzero : signWord (0 :: octets word) = 0 := by
    rw [signWord, leadsNegative_zero]
    rfl
  have hcons : shiftIn 0 (0 :: octets word) = shiftIn 0 (octets word) := rfl
  rw [hzero, hcons, shiftIn_octets hword (by decide), ← shiftIn_dropSign] at hvalue
  unfold decodeUnsigned
  rw [integerDigits_strip h (by simp)]
  change (if leadsNegative (stripRedundant (0 :: octets word)) = true then _ else if 8 < _ then _ else _) = _
  rw [hpositive, if_neg (by simp), if_neg (by omega), hvalue]
  rfl

/-- **So are unsigned integers.** -/
theorem decodeUnsigned_der {v : ℕ} (h : decodeUnsigned tlv .der = .ok v) (tag : Tag) :
    writeUnsigned v tag = writeTlv tag tlv.value := by
  unfold decodeUnsigned at h
  rcases hd : integerDigits tlv .der with e | digits
  · rw [hd] at h
    cases h
  · obtain ⟨rfl, hne, hstrip⟩ := integerDigits_der hd
    rw [hd] at h
    change (if leadsNegative tlv.value = true then _ else if 8 < (dropSign tlv.value).length then _
      else pure (shiftIn 0 (dropSign tlv.value))) = _ at h
    split_ifs at h with hnegative hlong
    · cases h
    · cases h
    obtain rfl := Except.ok.inj h
    have hoctet : signOctet tlv.value = 0 := by rw [signOctet, if_neg hnegative]
    have hword : signWord tlv.value = 0 := by rw [signWord, if_neg hnegative]
    obtain ⟨hpad, hshift, -⟩ := padded_spec hne (9 - tlv.value.length)
    rw [hoctet] at hpad hshift
    rw [hword] at hshift
    obtain ⟨word, hcons, hlen⟩ : ∃ word, replicate (9 - tlv.value.length) 0 ++ tlv.value = 0 :: word ∧ word.length = 8 := by
      rcases h9 : 9 - tlv.value.length with - | k
      · rcases dropSign_cases tlv.value with hdrop | hdrop
        · have hlen := congrArg length hdrop
          rw [length_cons] at hlen
          exact ⟨dropSign tlv.value, hdrop, by omega⟩
        · rw [hdrop] at hlong
          omega
      · refine ⟨replicate k 0 ++ tlv.value, rfl, ?_⟩
        rw [length_append, length_replicate]
        omega
    have hoctets : octets (shiftIn 0 tlv.value) = word := by
      rw [← hshift, hcons]
      exact octets_shiftIn hlen (by decide)
    unfold writeUnsigned
    rw [shiftIn_dropSign]
    change writeTlv tag (stripRedundant (0 :: octets (shiftIn 0 tlv.value))) = _
    rw [hoctets, ← hcons, hpad, hstrip]

section

variable {tag : Tag} (rules : Rules) (htag : tag.number ≤ maxTagNumber)

include htag

theorem readInteger_readsBack {v : ℤ} (hlo : -(2 ^ 63) ≤ v) (hhi : v < 2 ^ 63) :
    (readInteger rules tag).ReadsBack (writeInteger v tag) v := by
  have hlen := (stripRedundant_spec (octets (toUnsigned 64 v))).suffix.length_le
  rw [octets_length] at hlen
  apply expectTlv_readsBack rules htag (hlen.trans_lt (by decide))
  intro offset
  have hread : decodeInteger ⟨tag, stripRedundant (octets (toUnsigned 64 v)), offset⟩ rules = _ :=
    decodeInteger_strip (toUnsigned_lt 64 v) rfl rules
  rwa [toSigned_toUnsigned hlo hhi] at hread

theorem readUnsigned_readsBack {v : ℕ} (hv : v < 2 ^ 64) : (readUnsigned rules tag).ReadsBack (writeUnsigned v tag) v := by
  have hlen := (stripRedundant_spec (0 :: octets v)).suffix.length_le
  rw [length_cons, octets_length] at hlen
  apply expectTlv_readsBack rules htag (hlen.trans_lt (by decide))
  intro offset
  exact decodeUnsigned_strip hv rfl rules

end

/-- **BER and DER.** The readers undo the writers under both rule sets. What is
read under DER is what is written for it, down to the octets of an integer. -/
theorem ber_exact :
    (∀ (rules : Rules) (tag : Tag), tag.number ≤ maxTagNumber →
      (∀ value : List UInt8, value.length < 2 ^ 32 → ∀ rest o, readTlv rules ⟨writeTlv tag value ++ rest, o⟩ =
        .ok (⟨tag, value, o + (writeTag tag ++ writeLength value.length).length⟩,
          ⟨rest, o + (writeTlv tag value).length⟩)) ∧
      (∀ v : ℤ, -(2 ^ 63) ≤ v → v < 2 ^ 63 → (readInteger rules tag).ReadsBack (writeInteger v tag) v) ∧
      (∀ v < 2 ^ 64, (readUnsigned rules tag).ReadsBack (writeUnsigned v tag) v) ∧
      ∀ b, (readBoolean rules tag).ReadsBack (writeBoolean b tag) b) ∧
    (∀ r t r', readTlv .der r = .ok (t, r') → r.rest = writeTlv t.tag t.value ++ r'.rest ∧
      t.tag.number ≤ maxTagNumber ∧ t.value.length < 2 ^ 32) ∧
    (∀ tlv v, decodeInteger tlv .der = .ok v → ∀ tag, writeInteger v tag = writeTlv tag tlv.value) ∧
    ∀ tlv v, decodeUnsigned tlv .der = .ok v → ∀ tag, writeUnsigned v tag = writeTlv tag tlv.value := by
  refine ⟨fun rules tag htag => ⟨fun value hvalue => readTlv_writeTlv rules htag hvalue,
    fun v hlo hhi => readInteger_readsBack rules htag hlo hhi, fun v hv => readUnsigned_readsBack rules htag hv,
    readBoolean_readsBack rules htag⟩, ?_, fun _ _ h => decodeInteger_der h, fun _ _ h => decodeUnsigned_der h⟩
  intro r t r' h
  obtain ⟨xs, hxs, htag, hvalue, rfl⟩ := readTlv_took r t r' h
  exact ⟨hxs, htag, hvalue⟩

/-- `-129` takes two octets, which both rule sets read; `0xFF7F` with a third octet is not DER. -/
theorem ber_exact_two_octets :
    writeInteger (-129) Tags.integer = [0x02, 0x02, 0xFF, 0x7F] ∧
      (readInteger .ber Tags.integer).ReadsBack (writeInteger (-129) Tags.integer) (-129) ∧
      writeInteger (-129) Tags.integer = writeTlv Tags.integer [0xFF, 0x7F] :=
  ⟨by decide, (ber_exact.1 .ber Tags.integer (by decide)).2.1 (-129) (by decide) (by decide),
    ber_exact.2.2.1 ⟨Tags.integer, [0xFF, 0x7F], 0⟩ (-129) (by decide) Tags.integer⟩

end Ber
end Farland
