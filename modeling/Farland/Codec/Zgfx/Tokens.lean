/-
# The ZGFX token code

The static prefix code of RDP 8.0 bulk compression (`codec/zgfx.cpp`, "Token
code"): the token table, the decoder's 9-bit lookup, and the encoder's codes
for literals, match lengths and match distances. A literal token yields the
byte `base + value`, a match token the distance `base + value`, where distance
0 introduces an unencoded run.

What the codec needs from the code is that each encoder code is a token's
prefix followed by a value that fits its width (`literalCode_spec`,
`distanceCode_spec`, `lengthCode_spec`) and that the lookup finds a token from
its prefix whatever follows it (`tokenLookup_spec`).
-/
import Farland.Lib.Bits
import Farland.Base.Reader

namespace Farland
namespace Codec
namespace Zgfx

open Bits List

/-! ### The table -/

/-- One row of the token table: `prefixBits` in `prefixLength` bits, then
`valueBits` bits that are added to `base`. -/
structure Token where
  prefixLength : ℕ
  prefixBits : ℕ
  valueBits : ℕ
  isMatch : Bool
  base : ℕ
  deriving DecidableEq

def matchTokenFirst : ℕ := 1
def matchTokenCount : ℕ := 11

/-- The table of the specification: the literal, the match distances in
increasing order, and the literals with short codes. -/
def tokens : List Token := [
  ⟨1, 0b0, 8, false, 0⟩,
  ⟨5, 0b10001, 5, true, 0⟩,
  ⟨5, 0b10010, 7, true, 32⟩,
  ⟨5, 0b10011, 9, true, 160⟩,
  ⟨5, 0b10100, 10, true, 672⟩,
  ⟨5, 0b10101, 12, true, 1696⟩,
  ⟨6, 0b101100, 14, true, 5792⟩,
  ⟨6, 0b101101, 15, true, 22176⟩,
  ⟨7, 0b1011100, 18, true, 54944⟩,
  ⟨7, 0b1011101, 20, true, 317088⟩,
  ⟨8, 0b10111100, 20, true, 1365664⟩,
  ⟨8, 0b10111101, 21, true, 2414240⟩,
  ⟨5, 0b11000, 0, false, 0x00⟩,
  ⟨5, 0b11001, 0, false, 0x01⟩,
  ⟨6, 0b110100, 0, false, 0x02⟩,
  ⟨6, 0b110101, 0, false, 0x03⟩,
  ⟨6, 0b110110, 0, false, 0xFF⟩,
  ⟨7, 0b1101110, 0, false, 0x04⟩,
  ⟨7, 0b1101111, 0, false, 0x05⟩,
  ⟨7, 0b1110000, 0, false, 0x06⟩,
  ⟨7, 0b1110001, 0, false, 0x07⟩,
  ⟨7, 0b1110010, 0, false, 0x08⟩,
  ⟨7, 0b1110011, 0, false, 0x09⟩,
  ⟨7, 0b1110100, 0, false, 0x0A⟩,
  ⟨7, 0b1110101, 0, false, 0x0B⟩,
  ⟨7, 0b1110110, 0, false, 0x3A⟩,
  ⟨7, 0b1110111, 0, false, 0x3B⟩,
  ⟨7, 0b1111000, 0, false, 0x3C⟩,
  ⟨7, 0b1111001, 0, false, 0x3D⟩,
  ⟨7, 0b1111010, 0, false, 0x3E⟩,
  ⟨7, 0b1111011, 0, false, 0x3F⟩,
  ⟨7, 0b1111100, 0, false, 0x40⟩,
  ⟨7, 0b1111101, 0, false, 0x80⟩,
  ⟨8, 0b11111100, 0, false, 0x0C⟩,
  ⟨8, 0b11111101, 0, false, 0x38⟩,
  ⟨8, 0b11111110, 0, false, 0x39⟩,
  ⟨8, 0b11111111, 0, false, 0x66⟩]

def noToken : Token := ⟨0, 0, 0, false, 0⟩

def matchTokens : List Token := (tokens.drop matchTokenFirst).take matchTokenCount

/-! ### The decoder's lookup -/

/-- Longest token prefix; the decoder looks up this many bits at once. -/
def lookupBits : ℕ := 9
def reservedToken : ℕ := 0xFF

/-- Writes `t` into the `count` entries from `first` on. -/
def fillN (lookup : List ℕ) (first count t : ℕ) : List ℕ :=
  lookup.take first ++ List.replicate count t ++ lookup.drop (first + count)

/-- Fills in the entries that start with the prefix of token `p.1`. -/
def fillToken (lookup : List ℕ) (p : Token × ℕ) : List ℕ :=
  fillN lookup (p.1.prefixBits <<< (lookupBits - p.1.prefixLength)) (2 ^ (lookupBits - p.1.prefixLength)) p.2

/-- Maps the next `lookupBits` bits to the index of the token whose prefix
they start with, or `reservedToken`. -/
def buildTokenLookup : List ℕ :=
  tokens.zipIdx.foldl fillToken (List.replicate (2 ^ lookupBits) reservedToken)

def tokenLookup (v : ℕ) : ℕ := buildTokenLookup.getD v reservedToken

/-- The first entry that starts with the token's prefix. -/
def Token.first (t : Token) : ℕ := t.prefixBits <<< (lookupBits - t.prefixLength)

/-- Behind the entries that start with the token's prefix. -/
def Token.stop (t : Token) : ℕ := t.first + 2 ^ (lookupBits - t.prefixLength)

variable {lookup : List ℕ}

theorem getElem?_fillN {first count : ℕ} (h : first + count ≤ lookup.length) (t v : ℕ) :
    (fillN lookup first count t)[v]? = if first ≤ v ∧ v < first + count then some t else lookup[v]? := by
  have hlen : (lookup.take first).length = first := by rw [length_take]; omega
  rw [fillN, append_assoc]
  rcases lt_or_ge v first with h1 | h1
  · rw [getElem?_append_left (by omega), if_neg (by omega), getElem?_take, if_pos h1]
  · rw [getElem?_append_right (by omega), hlen]
    rcases lt_or_ge v (first + count) with h2 | h2
    · rw [getElem?_append_left (by simp; omega), if_pos ⟨h1, h2⟩, getElem?_replicate, if_pos (by omega)]
    · rw [getElem?_append_right (by simp; omega), if_neg (by omega), length_replicate, getElem?_drop]
      congr 1
      omega

theorem fillN_length {first count : ℕ} (h : first + count ≤ lookup.length) (t : ℕ) :
    (fillN lookup first count t).length = lookup.length := by
  simp only [fillN, length_append, length_take, length_replicate, length_drop]
  omega

theorem fillToken_length {p : Token × ℕ} (h : p.1.stop ≤ lookup.length) : (fillToken lookup p).length = lookup.length :=
  fillN_length h _

theorem foldl_fillToken_length : ∀ (ps : List (Token × ℕ)) (lookup : List ℕ),
    (∀ p ∈ ps, p.1.stop ≤ lookup.length) → (ps.foldl fillToken lookup).length = lookup.length
  | [], _, _ => rfl
  | p :: ps, lookup, h => by
    have hp : (fillToken lookup p).length = lookup.length := fillToken_length (h p (mem_cons_self ..))
    rw [foldl_cons, foldl_fillToken_length ps _ fun q hq => by
      rw [hp]; exact h q (mem_cons_of_mem _ hq), hp]

/-- Tokens that do not start with `v` leave its entry alone. -/
theorem foldl_fillToken_of_notMem {v : ℕ} : ∀ (ps : List (Token × ℕ)) (lookup : List ℕ),
    (∀ p ∈ ps, p.1.stop ≤ lookup.length) → (∀ p ∈ ps, ¬(p.1.first ≤ v ∧ v < p.1.stop)) →
    (ps.foldl fillToken lookup)[v]? = lookup[v]?
  | [], _, _, _ => rfl
  | p :: ps, lookup, h, hv => by
    have hp := h p (mem_cons_self ..)
    have hlen : (fillToken lookup p).length = lookup.length := fillToken_length hp
    rw [foldl_cons, foldl_fillToken_of_notMem ps _ (fun q hq => by rw [hlen]; exact h q (mem_cons_of_mem _ hq))
      (fun q hq => hv q (mem_cons_of_mem _ hq))]
    exact (getElem?_fillN hp _ _).trans (if_neg (hv p (mem_cons_self ..)))

theorem tokens_stop : ∀ t ∈ tokens, t.stop ≤ 2 ^ lookupBits := by
  decide

/-- The prefixes form a prefix code: no two tokens share an entry. -/
theorem tokens_disjoint : ∀ i < tokens.length, ∀ j < tokens.length, i ≠ j →
    (tokens.getD i noToken).stop ≤ (tokens.getD j noToken).first ∨
      (tokens.getD j noToken).stop ≤ (tokens.getD i noToken).first := by
  decide +kernel

/-- Whatever follows its prefix, the lookup finds the token. -/
theorem tokenLookup_spec {i v : ℕ} (hi : i < tokens.length) (h1 : (tokens.getD i noToken).first ≤ v)
    (h2 : v < (tokens.getD i noToken).stop) : tokenLookup v = i := by
  have hmem : ∀ p ∈ tokens.zipIdx, p.1.stop ≤ 2 ^ lookupBits := fun p hp =>
    tokens_stop p.1 (fst_mem_of_mem_zipIdx hp)
  have hsplit : tokens.zipIdx = tokens.zipIdx.take i ++ (tokens.getD i noToken, i) :: tokens.zipIdx.drop (i + 1) := by
    have hl : i < tokens.zipIdx.length := by rw [length_zipIdx]; exact hi
    conv_lhs => rw [← take_append_drop i tokens.zipIdx, drop_eq_getElem_cons hl]
    rw [getElem_zipIdx, getD_eq_getElem _ _ hi, zero_add]
  have hafter : ∀ p ∈ tokens.zipIdx.drop (i + 1), ¬(p.1.first ≤ v ∧ v < p.1.stop) := by
    intro p hp
    obtain ⟨k, hk, rfl⟩ := getElem_of_mem hp
    rw [length_drop, length_zipIdx] at hk
    have hj : i + 1 + k < tokens.length := by omega
    rcases tokens_disjoint i hi (i + 1 + k) hj (by omega) with h | h <;>
      rw [getD_eq_getElem _ _ hj] at h <;> rw [getElem_drop, getElem_zipIdx] <;> simp only <;> omega
  have hbuild : buildTokenLookup[v]? = some i := by
    rw [buildTokenLookup, hsplit, foldl_append, foldl_cons]
    set L := (tokens.zipIdx.take i).foldl fillToken (List.replicate (2 ^ lookupBits) reservedToken) with hL
    have hLlen : L.length = 2 ^ lookupBits := by
      rw [hL, foldl_fillToken_length _ _ fun p hp => by
        rw [length_replicate]; exact hmem p (mem_of_mem_take hp), length_replicate]
    have hstop : (tokens.getD i noToken).stop ≤ L.length := by
      rw [hLlen]
      exact hmem (tokens.getD i noToken, i) (by rw [hsplit]; simp)
    rw [foldl_fillToken_of_notMem _ _ (fun p hp => by
      rw [fillToken_length (p := (tokens.getD i noToken, i)) hstop, hLlen]; exact hmem p (mem_of_mem_drop hp)) hafter]
    exact (getElem?_fillN hstop _ _).trans (if_pos ⟨h1, h2⟩)
  rw [tokenLookup, getD_eq_getElem?_getD, hbuild, Option.getD_some]

-- from here on the table is known by `tokenLookup_spec` alone
attribute [irreducible] tokenLookup

theorem tokens_widths : ∀ t ∈ tokens, 1 ≤ t.prefixLength ∧ t.prefixLength ≤ 8 ∧ t.valueBits ≤ 21 ∧
    t.prefixBits < 2 ^ t.prefixLength := by
  decide

/-! ### The encoder's codes -/

structure Code where
  bits : ℕ
  length : ℕ
  deriving DecidableEq

/-- The bits of a code, as they go on the wire. -/
def Code.wire (c : Code) : List Bool := ofNat c.length c.bits

/-- The code's bits fit its length, and its length one `put`. -/
def Code.Fits (c : Code) : Prop := c.bits < 2 ^ c.length ∧ c.length ≤ 32

/-- Gives a literal with a short token that token's code. -/
def shortLiteral (codes : List Code) (t : Token) : List Code :=
  if !t.isMatch && t.valueBits == 0 then codes.set t.base ⟨t.prefixBits, t.prefixLength⟩ else codes

/-- The code of each literal: its short token, or 0 followed by the byte. -/
def buildLiteralCodes : List Code :=
  tokens.foldl shortLiteral ((List.range 256).map fun b => ⟨b, 9⟩)

variable (b : UInt8)

def literalCode : Code := buildLiteralCodes.getD b.toNat ⟨0, 0⟩

/-- The code `c` is the short token of byte `b`, one of `ts`. -/
def IsShort (ts : List Token) (b : ℕ) (c : Code) : Prop :=
  ∃ t ∈ ts, t.isMatch = false ∧ t.valueBits = 0 ∧ t.base = b ∧ c = ⟨t.prefixBits, t.prefixLength⟩

theorem foldl_shortLiteral : ∀ (ts : List Token) (codes : List Code) (b : ℕ) (c : Code),
    (ts.foldl shortLiteral codes)[b]? = some c → codes[b]? = some c ∨ IsShort ts b c
  | [], _, _, _, h => Or.inl h
  | t :: ts, codes, b, c, h => by
    rcases foldl_shortLiteral ts _ b c h with h | ⟨u, hu, hc⟩
    · rw [shortLiteral] at h
      split_ifs at h with hs
      · simp only [Bool.and_eq_true, Bool.not_eq_eq_eq_not, Bool.not_true, beq_iff_eq] at hs
        rw [getElem?_set] at h
        split_ifs at h with hb
        · exact Or.inr ⟨t, mem_cons_self .., hs.1, hs.2, hb, by simpa using h.symm⟩
        · exact Or.inl h
      · exact Or.inl h
    · exact Or.inr ⟨u, mem_cons_of_mem _ hu, hc⟩

theorem foldl_shortLiteral_length : ∀ (ts : List Token) (codes : List Code),
    (ts.foldl shortLiteral codes).length = codes.length
  | [], _ => rfl
  | t :: ts, codes => by
    rw [foldl_cons, foldl_shortLiteral_length ts, shortLiteral]
    split_ifs <;> simp

/-- A literal's code is the general literal token with the byte as its value,
or a short token whose base is the byte. -/
theorem literalCode_cases : literalCode b = ⟨b.toNat, 9⟩ ∨ IsShort tokens b.toNat (literalCode b) := by
  have hb : b.toNat < 256 := b.toNat_lt
  have hlen : b.toNat < buildLiteralCodes.length := by
    rw [buildLiteralCodes, foldl_shortLiteral_length]
    simpa using hb
  have hget : buildLiteralCodes[b.toNat]? = some (literalCode b) := by
    rw [literalCode, getD_eq_getElem _ _ hlen, getElem?_eq_getElem hlen]
  rcases foldl_shortLiteral tokens _ b.toNat _ hget with h | h
  · rw [getElem?_map, getElem?_range hb] at h
    exact Or.inl (by simpa using h.symm)
  · exact Or.inr h

/-- Every literal's code is a literal token and a value for it. -/
theorem literalCode_spec : ∃ i < tokens.length, ∃ v < 2 ^ (tokens.getD i noToken).valueBits,
    (tokens.getD i noToken).isMatch = false ∧ (tokens.getD i noToken).base + v = b.toNat ∧
    (literalCode b).wire = ofNat (tokens.getD i noToken).prefixLength (tokens.getD i noToken).prefixBits ++
      ofNat (tokens.getD i noToken).valueBits v := by
  have hb : b.toNat < 256 := b.toNat_lt
  rcases literalCode_cases b with h | ⟨t, ht, hm, hv, hbase, h⟩
  · refine ⟨0, by decide, b.toNat, hb, rfl, by simp [tokens], ?_⟩
    rw [h, Code.wire]
    change ofNat 9 b.toNat = ofNat 1 0 ++ ofNat 8 b.toNat
    rw [ofNat]
    congr 1
    exact Nat.testBit_eq_false_of_lt hb
  · obtain ⟨i, hi, rfl⟩ := getElem_of_mem ht
    rw [← getD_eq_getElem tokens noToken hi] at hm hv hbase h
    refine ⟨i, hi, 0, by rw [hv]; decide, hm, by rw [hbase, add_zero], ?_⟩
    rw [h, Code.wire, hv, ofNat_zero, append_nil]

theorem literalCode_fits : (literalCode b).Fits := by
  rcases literalCode_cases b with h | ⟨t, ht, _, _, _, h⟩
  · rw [h]
    exact ⟨by have := b.toNat_lt; simp only; omega, by simp⟩
  · obtain ⟨_, h8, _, hlt⟩ := tokens_widths t ht
    rw [h]
    exact ⟨hlt, by simp only; omega⟩

def minMatch : ℕ := 3
def maxMatch : ℕ := 65535
def maxLengthOnes : ℕ := 14

/-- `std::bit_width`. -/
def bitWidth (n : ℕ) : ℕ := if n = 0 then 0 else n.log2 + 1

/-- The match length code: 0 for length 3, otherwise `k` ones and a zero
followed by `k + 1` bits of `length - 2 ^ (k + 1)`. -/
def lengthCode (length : ℕ) : Code :=
  if length = minMatch then ⟨0, 1⟩
  else
    let k := bitWidth length - 2
    let pre := ((1 <<< k) - 1) <<< 1
    let value := length - 2 ^ (k + 1)
    ⟨(pre <<< (k + 1)) ||| value, 2 * k + 2⟩

/-- `k` ones. -/
theorem ofNat_ones (k : ℕ) : ofNat k (2 ^ k - 1) = List.replicate k true := by
  induction k with
  | zero => rfl
  | succ k ih =>
    rw [ofNat, replicate_succ, ← ih, Nat.testBit_two_pow_sub_one]
    simp only [lt_add_one, decide_true, List.cons.injEq, true_and]
    refine ofNat_congr fun i hi => ?_
    rw [Nat.testBit_two_pow_sub_one, Nat.testBit_two_pow_sub_one]
    simp [hi, Nat.lt_succ_of_lt hi]

/-- A length above 3 is `2 ^ (k + 1)` plus a value of `k + 1` bits, behind
`k` ones and a zero, with `k` in 1..14. -/
theorem lengthCode_spec {length : ℕ} (h3 : minMatch < length) (hmax : length ≤ maxMatch) :
    ∃ k v, 1 ≤ k ∧ k ≤ maxLengthOnes ∧ v < 2 ^ (k + 1) ∧ length = 2 ^ (k + 1) + v ∧
      (lengthCode length).wire = List.replicate k true ++ false :: ofNat (k + 1) v := by
  have h3' : 4 ≤ length := h3
  have hne : length ≠ 0 := by omega
  have hlo : 2 ^ length.log2 ≤ length := Nat.log2_self_le hne
  have hhi : length < 2 ^ (length.log2 + 1) := Nat.lt_log2_self
  have hlog2 : 2 ≤ length.log2 := (Nat.le_log2 hne).mpr h3'
  have hlog15 : length.log2 ≤ 15 := by
    have : length.log2 < 16 := (Nat.log2_lt hne).mpr (by simp only [maxMatch] at hmax; omega)
    omega
  obtain ⟨k, hk⟩ : ∃ k, length.log2 = k + 1 := ⟨length.log2 - 1, by omega⟩
  rw [hk] at hlo hhi hlog2 hlog15
  have hwidth : bitWidth length - 2 = k := by rw [bitWidth, if_neg hne, hk]; omega
  have hv : length - 2 ^ (k + 1) < 2 ^ (k + 1) := by
    rw [pow_succ] at hhi
    omega
  refine ⟨k, length - 2 ^ (k + 1), by omega, by simp only [maxLengthOnes]; omega, hv, by omega, ?_⟩
  rw [lengthCode, if_neg (by simp only [minMatch]; omega)]
  simp only [hwidth, Code.wire]
  rw [show 2 * k + 2 = (k + 1) + (k + 1) by ring, ofNat_shiftLeft_or hv]
  have hpre : ofNat (k + 1) ((1 <<< k - 1) <<< 1) = List.replicate k true ++ [false] := by
    rw [← Nat.or_zero ((1 <<< k - 1) <<< 1), ofNat_shiftLeft_or (by decide), Nat.shiftLeft_eq, one_mul, ofNat_ones]
    rfl
  rw [hpre, append_assoc]
  rfl

theorem lengthCode_fits {length : ℕ} (h3 : minMatch ≤ length) (hmax : length ≤ maxMatch) :
    (lengthCode length).Fits := by
  rw [lengthCode]
  split_ifs with h
  · exact ⟨by decide, by decide⟩
  simp only [minMatch] at h3 h
  simp only [maxMatch] at hmax
  have hlog : length.log2 < 16 := (Nat.log2_lt (by omega)).mpr (by omega)
  have hlog1 : 1 ≤ length.log2 := (Nat.le_log2 (by omega)).mpr (by omega)
  have hhi : length < 2 ^ (length.log2 + 1) := Nat.lt_log2_self
  obtain ⟨k, hk⟩ : ∃ k, length.log2 = k + 1 := ⟨length.log2 - 1, by omega⟩
  have hwidth : bitWidth length - 2 = k := by rw [bitWidth, if_neg (by omega), hk]; omega
  rw [hk] at hhi hlog
  simp only [hwidth]
  refine ⟨Nat.or_lt_two_pow ?_ ?_, by simp only; omega⟩
  · rw [Nat.shiftLeft_eq, Nat.shiftLeft_eq, Nat.shiftLeft_eq, one_mul, pow_one]
    have : (2 ^ k - 1) * 2 < 2 ^ (k + 1) := by
      have := Nat.two_pow_pos k
      rw [pow_succ]
      omega
    calc (2 ^ k - 1) * 2 * 2 ^ (k + 1) < 2 ^ (k + 1) * 2 ^ (k + 1) := mul_lt_mul_of_pos_right this (Nat.two_pow_pos _)
      _ = 2 ^ (2 * k + 2) := by rw [← pow_add]; congr 1; ring
  · calc length - 2 ^ (k + 1) ≤ length := Nat.sub_le ..
      _ < 2 ^ (k + 1 + 1) := hhi
      _ ≤ 2 ^ (2 * k + 2) := Nat.pow_le_pow_right (by omega) (by omega)

structure DistanceCode where
  token : Code
  value : Code
  deriving DecidableEq

/-- The `while` of `distance_code`: down from row `t` to the first whose base
is not above `distance`. -/
def distanceRow (distance : ℕ) : ℕ → ℕ
  | 0 => 0
  | t + 1 => if (matchTokens.getD (t + 1) noToken).base > distance then distanceRow distance t else t + 1

def distanceCode (distance : ℕ) : DistanceCode :=
  let token := matchTokens.getD (distanceRow distance (matchTokens.length - 1)) noToken
  ⟨⟨token.prefixBits, token.prefixLength⟩, ⟨distance - token.base, token.valueBits⟩⟩

/-- The largest distance the table reaches. -/
def maxDistance : ℕ := 2414240 + 2 ^ 21

/-- The rows of `matchTokens` are the rows of `tokens` from 1 on, and each
reaches up to the next. -/
theorem matchTokens_rows : ∀ j < matchTokens.length,
    matchTokens.getD j noToken = tokens.getD (j + 1) noToken ∧ (tokens.getD (j + 1) noToken).isMatch = true ∧
    (matchTokens.getD j noToken).base + 2 ^ (matchTokens.getD j noToken).valueBits =
      if j + 1 < matchTokens.length then (matchTokens.getD (j + 1) noToken).base else maxDistance := by
  decide

/-- The row found is the last one at or before `t` whose base is not above
`distance`. -/
theorem distanceRow_spec (distance : ℕ) : ∀ t, distanceRow distance t ≤ t ∧
    (matchTokens.getD (distanceRow distance t) noToken).base ≤ distance ∧
    (distanceRow distance t < t → distance < (matchTokens.getD (distanceRow distance t + 1) noToken).base)
  | 0 => ⟨le_rfl, Nat.zero_le _, fun h => absurd h (Nat.lt_irrefl _)⟩
  | t + 1 => by
    obtain ⟨h1, h2, h3⟩ := distanceRow_spec distance t
    rw [distanceRow]
    split_ifs with hb
    · refine ⟨by omega, h2, fun h => ?_⟩
      rcases Nat.lt_or_ge (distanceRow distance t) t with h4 | h4
      · exact h3 h4
      · rw [show distanceRow distance t = t by omega]
        exact hb
    · exact ⟨le_rfl, by omega, fun h => absurd h (Nat.lt_irrefl _)⟩

/-- The row a distance's code is taken from reaches the distance. -/
theorem distanceCode_row {distance : ℕ} (h : distance < maxDistance) :
    ∃ j < matchTokens.length, distanceRow distance (matchTokens.length - 1) = j ∧
      (matchTokens.getD j noToken).base ≤ distance ∧
      distance - (matchTokens.getD j noToken).base < 2 ^ (matchTokens.getD j noToken).valueBits := by
  obtain ⟨hle, hbase, hnext⟩ := distanceRow_spec distance (matchTokens.length - 1)
  set j := distanceRow distance (matchTokens.length - 1)
  have hlen : matchTokens.length = 11 := rfl
  obtain ⟨_, _, hrow⟩ := matchTokens_rows j (by omega)
  refine ⟨j, by omega, rfl, hbase, ?_⟩
  split_ifs at hrow with hlast
  · have := hnext (by omega)
    omega
  · omega

/-- A distance's code is a match token and a value for it. -/
theorem distanceCode_spec {distance : ℕ} (h : distance < maxDistance) :
    ∃ i < tokens.length, ∃ v < 2 ^ (tokens.getD i noToken).valueBits,
      (tokens.getD i noToken).isMatch = true ∧ (tokens.getD i noToken).base + v = distance ∧
      (distanceCode distance).token.wire ++ (distanceCode distance).value.wire =
        ofNat (tokens.getD i noToken).prefixLength (tokens.getD i noToken).prefixBits ++
          ofNat (tokens.getD i noToken).valueBits v := by
  obtain ⟨j, hj, hrow, hbase, hlt⟩ := distanceCode_row h
  obtain ⟨e, hm, _⟩ := matchTokens_rows j hj
  have hlen : matchTokens.length = 11 := rfl
  have hlen' : tokens.length = 37 := rfl
  refine ⟨j + 1, by omega, distance - (matchTokens.getD j noToken).base, e ▸ hlt, hm, ?_, ?_⟩
  · rw [← e]
    omega
  · simp only [distanceCode, Code.wire, hrow, e]

theorem distanceCode_fits {distance : ℕ} (h : distance < maxDistance) :
    (distanceCode distance).token.Fits ∧ (distanceCode distance).value.Fits := by
  obtain ⟨j, hj, hrow, _, hlt⟩ := distanceCode_row h
  have hmem : matchTokens.getD j noToken ∈ tokens := by
    rw [getD_eq_getElem _ _ hj]
    exact mem_of_mem_drop (mem_of_mem_take (getElem_mem hj))
  obtain ⟨_, h8, h21, hpre⟩ := tokens_widths _ hmem
  simp only [distanceCode, hrow]
  exact ⟨⟨hpre, by simp only; omega⟩, ⟨hlt, by simp only; omega⟩⟩

end Zgfx
end Codec
end Farland
