/-
# Upgrade passes

The SRL and RAW streams of `rfx_common.cpp`: a value the client has as zero
goes through SRL (zero runs and unary magnitudes), one it knows the sign of
gets its next bits raw. The encoder holds back a run of zeros until it ends;
the decoder takes one value at a time. `SrlReads` and `RawReads` say which
values a decoder is going to read, so that the two streams, which the decoder
reads in turn, can be followed one by one.

Key theorems: `srlReads_srlBits`, `upgradeElements_spec`, **`upgrade_reads`**.
-/
import Farland.Codec.Rfx.Rlgr

namespace Farland
namespace Codec
namespace Rfx

open Bits List Nat

/-! ### Decoder -/

/-- The next `count` bits; bits past the end are zero. -/
def readBits (count : ℕ) (bits : List Bool) : ℕ × List Bool :=
  (toNat (bits.take count ++ List.replicate (count - bits.length) false), bits.drop count)

/-- The SRL stream of a component and where its decoder is. -/
structure SrlState where
  bits : List Bool
  kp : ℕ := 8
  nz : ℕ := 0
  unary : Bool := false
  deriving DecidableEq

/-- Decoder state shared by all bands of one component. -/
structure UpgradeState where
  srl : SrlState
  raw : List Bool
  deriving DecidableEq

/-- Counts zeros up to a one; `fuel` more give the largest magnitude, which
has no one behind it. Past the end every bit is zero. -/
def unaryMagnitude : ℕ → ℕ → List Bool → ℕ × List Bool
  | 0, mag, bits => (mag, bits)
  | fuel + 1, mag, [] => (mag + (fuel + 1), [])
  | fuel + 1, mag, bit :: bits => if bit then (mag, bits) else unaryMagnitude fuel (mag + 1) bits

/-- The unary-coded nonzero value behind a run. -/
def srlValue (bits : List Bool) (kp numBits : ℕ) : ℤ × SrlState :=
  let (sign, bits) := readBits 1 bits
  let kp := if kp < 6 then 0 else kp - 6
  if numBits = 1 then (if sign ≠ 0 then -1 else 1, { bits := bits, kp := kp })
  else
    let (mag, bits) := unaryMagnitude (2 ^ numBits - 1 - 1) 1 bits
    let magnitude : ℤ := min mag 32767
    (if sign ≠ 0 then -magnitude else magnitude, { bits := bits, kp := kp })

/-- One value from the SRL stream. -/
def srlRead (s : SrlState) (numBits : ℕ) : ℤ × SrlState :=
  if 0 < s.nz then (0, { s with nz := s.nz - 1 })
  else if s.unary then srlValue s.bits s.kp numBits
  else
    let k := s.kp / 8
    let (full, bits) := readBits 1 s.bits
    -- a full run of 2^k zeros
    if full = 0 then (0, { bits := bits, kp := min (s.kp + 4) kpMax, nz := 2 ^ k - 1 })
    else
      -- a shorter run of the next k bits, then a nonzero value
      let (nz, bits) := readBits k bits
      if 0 < nz then (0, { bits := bits, kp := s.kp, nz := nz - 1, unary := true })
      else srlValue bits s.kp numBits

/-- A coefficient and the sign the decoder knows of it. -/
structure Element where
  current : ℤ
  sign : ℤ
  deriving DecidableEq

def Element.add (e : Element) (input : ℤ) (shift : ℕ) : Element :=
  { e with current := wrap16 (e.current + input * 2 ^ min shift 32) }

/-- Adds one band's upgrade: raw bits where the sign is known, SRL elsewhere;
the LL band has raw bits only. -/
def upgradeElements (shift numBits : ℕ) (nonLl : Bool) : UpgradeState → List Element → UpgradeState × List Element
  | s, [] => (s, [])
  | s, e :: es =>
    let raw := readBits numBits s.raw
    let next : UpgradeState × Element :=
      if nonLl = false ∨ e.sign > 0 then ({ s with raw := raw.2 }, e.add (wrap16 raw.1) shift)
      else if e.sign < 0 then ({ s with raw := raw.2 }, e.add (-wrap16 raw.1) shift)
      else
        let input := srlRead s.srl numBits
        ({ s with srl := input.2 }, { e with sign := input.1 }.add input.1 shift)
    let rest := upgradeElements shift numBits nonLl next.1 es
    (rest.1, next.2 :: rest.2)

def upgradeBand (s : UpgradeState) (es : List Element) (shift numBits : ℕ) (nonLl : Bool) :
    UpgradeState × List Element :=
  if numBits < 1 then (s, es) else upgradeElements shift numBits nonLl s es

/-! ### Encoder -/

/-- The two streams so far, the SRL state and the pending zero run. -/
structure UpgradeWriter where
  srl : List Bool := []
  raw : List Bool := []
  kp : ℕ := 8
  zeros : ℕ := 0
  deriving DecidableEq

/-- Unary magnitude: sign, q - 1 zeros, and a 1 unless q is the largest. -/
def srlCode (numBits : ℕ) (negative : Bool) (q : ℕ) : List Bool :=
  negative ::
    if 1 < numBits then List.replicate (q - 1) false ++ if q < 2 ^ numBits - 1 then [true] else [] else []

/-- The next bits of one coefficient. -/
def UpgradeWriter.put (from_ to_ : ℕ) (w : UpgradeWriter) (v : ℤ) : UpgradeWriter :=
  let numBits := from_ - to_
  if v.natAbs >>> from_ ≠ 0 then { w with raw := w.raw ++ ofNat numBits (v.natAbs >>> to_ &&& (2 ^ numBits - 1)) }
  else
    let q := v.natAbs >>> to_
    -- the zeros are counted in 32 bits
    if q = 0 then { w with zeros := (w.zeros + 1) % zerosLimit }
    else
      let run := putRun w.zeros w.kp w.zeros
      { w with
        srl := w.srl ++ run.1 ++ srlCode numBits (v < 0) q
        kp := if run.2 < 6 then 0 else run.2 - 6
        zeros := 0 }

/-- `none` is the failed assertion on the shifts. -/
def upgradeEncodeBand (sb : List ℤ) (from_ to_ : ℕ) (w : UpgradeWriter) : Option UpgradeWriter :=
  if from_ > to_ ∧ from_ - to_ < 16 then some (sb.foldl (UpgradeWriter.put from_ to_) w) else none

/-- The trailing zeros as full runs. -/
def finishRun : ℕ → ℕ → ℕ → List Bool
  | 0, _, _ => []
  | fuel + 1, kp, zeros =>
    if 0 < zeros then false :: finishRun fuel (min (kp + 4) kpMax) (zeros - 2 ^ (kp / 8)) else []

variable (w : UpgradeWriter)

/-- Ends the SRL stream; a stream with any bits has an extra zero byte. -/
def upgradeEncodeFinish : List UInt8 :=
  let srl := toBytes (w.srl ++ finishRun w.zeros w.kp w.zeros)
  if srl = [] then [] else srl ++ [0]

/-! ### What a decoder is going to read -/

/-- The values the SRL decoder gives for the given bit counts. -/
def SrlReads : SrlState → List (ℕ × ℤ) → Prop
  | _, [] => True
  | s, (numBits, q) :: rest => (srlRead s numBits).1 = q ∧ SrlReads (srlRead s numBits).2 rest

def RawReads : List Bool → List (ℕ × ℕ) → Prop
  | _, [] => True
  | bits, (numBits, v) :: rest => (readBits numBits bits).1 = v ∧ RawReads (readBits numBits bits).2 rest

/-- What is left of a coefficient without its `shift` low bits. -/
def trunc (v : ℤ) (shift : ℕ) : ℤ := v.sign * (v.natAbs >>> shift : ℕ)

/-- What one coefficient sends through SRL. -/
def srlSymbols (from_ to_ : ℕ) (v : ℤ) : List (ℕ × ℤ) :=
  if v.natAbs >>> from_ ≠ 0 then [] else [(from_ - to_, trunc v to_)]

def rawSymbols (from_ to_ : ℕ) (v : ℤ) : List (ℕ × ℕ) :=
  if v.natAbs >>> from_ ≠ 0 then [(from_ - to_, v.natAbs >>> to_ &&& (2 ^ (from_ - to_) - 1))] else []

/-- The bits of SRL values behind a pending run, to the end of the stream. -/
def srlBits : ℕ → ℕ → List (ℕ × ℤ) → List Bool
  | kp, zeros, [] => finishRun zeros kp zeros
  | kp, zeros, (numBits, q) :: rest =>
    if q = 0 then srlBits kp (zeros + 1) rest
    else
      let run := putRun zeros kp zeros
      run.1 ++ srlCode numBits (q < 0) q.natAbs ++ srlBits (if run.2 < 6 then 0 else run.2 - 6) 0 rest

/-- Bits of a number in front of others. -/
theorem readBits_ofNat {count v : ℕ} (h : v < 2 ^ count) (rest : List Bool) :
    readBits count (ofNat count v ++ rest) = (v, rest) := by
  have hlen : (ofNat count v).length = count := ofNat_length count v
  unfold readBits
  rw [take_left' hlen, drop_left' hlen, length_append, hlen,
    Nat.sub_eq_zero_of_le (Nat.le_add_right _ _),
    replicate_zero, append_nil, toNat_ofNat h]

theorem readBits_one (bit : Bool) (rest : List Bool) : readBits 1 (bit :: rest) = (bit.toNat, rest) := by
  cases bit <;> simp [readBits, Bits.toNat]

variable (tail : List Bool)

theorem rawReads_bits : ∀ l : List (ℕ × ℕ), (∀ p ∈ l, p.2 < 2 ^ p.1) →
    RawReads ((l.flatMap fun p => ofNat p.1 p.2) ++ tail) l
  | [], _ => trivial
  | (n, v) :: l, h => by
    have hv : v < 2 ^ n := h (n, v) mem_cons_self
    rw [flatMap_cons, append_assoc, RawReads, readBits_ofNat hv]
    exact ⟨rfl, rawReads_bits l fun p hp => h p (mem_cons_of_mem _ hp)⟩

/-! ### The SRL stream reads back -/

theorem unaryMagnitude_zeros (rest : List Bool) : ∀ (n fuel mag : ℕ),
    unaryMagnitude (n + fuel) mag (List.replicate n false ++ rest) = unaryMagnitude fuel (mag + n) rest
  | 0, fuel, mag => by simp
  | n + 1, fuel, mag => by
    rw [show n + 1 + fuel = (n + fuel) + 1 by ring, replicate_succ, cons_append, unaryMagnitude,
      if_neg (by decide), unaryMagnitude_zeros rest n fuel (mag + 1)]
    congr 1
    ring

theorem srlValue_code {numBits q kp : ℕ} (negative : Bool) (hn : 1 ≤ numBits) (hn' : numBits < 16) (hq : 1 ≤ q)
    (hmax : q ≤ 2 ^ numBits - 1) (tail : List Bool) :
    srlValue (srlCode numBits negative q ++ tail) kp numBits =
      (if negative then -(q : ℤ) else q, { bits := tail, kp := if kp < 6 then 0 else kp - 6 }) := by
  have hpow : 2 ^ numBits ≤ 2 ^ 15 := Nat.pow_le_pow_right (by decide) (by omega)
  unfold srlValue srlCode
  rw [cons_append, readBits_one]
  dsimp only
  by_cases h1 : numBits = 1
  · subst h1
    have : q = 1 := by omega
    subst this
    cases negative <;> rfl
  · rw [if_neg h1, if_pos (show 1 < numBits by omega), append_assoc]
    have hmag : ∃ bits, unaryMagnitude (2 ^ numBits - 1 - 1) 1
        (List.replicate (q - 1) false ++ ((if q < 2 ^ numBits - 1 then [true] else []) ++ tail)) = (q, bits) ∧
        bits = tail := by
      rw [show 2 ^ numBits - 1 - 1 = (q - 1) + (2 ^ numBits - 1 - q) by omega, unaryMagnitude_zeros,
        show 1 + (q - 1) = q by omega]
      by_cases hlt : q < 2 ^ numBits - 1
      · obtain ⟨f, hf⟩ : ∃ f, 2 ^ numBits - 1 - q = f + 1 := ⟨2 ^ numBits - 1 - q - 1, by omega⟩
        rw [if_pos hlt, hf]
        exact ⟨tail, rfl, rfl⟩
      · rw [if_neg hlt, show 2 ^ numBits - 1 - q = 0 by omega]
        exact ⟨tail, rfl, rfl⟩
    obtain ⟨bits, hbits, rfl⟩ := hmag
    rw [hbits]
    rw [show min (q : ℤ) 32767 = q by omega]
    cases negative <;> rfl

variable {rest : List (ℕ × ℤ)}

/-- Zeros out of a run that was announced. -/
theorem srlReads_nz {bits : List Bool} {kp : ℕ} {unary : Bool} : ∀ (zs : List ℕ) (nz : ℕ),
    zs.length ≤ nz → SrlReads ⟨bits, kp, nz - zs.length, unary⟩ rest →
    SrlReads ⟨bits, kp, nz, unary⟩ (zs.map (·, (0 : ℤ)) ++ rest)
  | [], nz, _, h => h
  | z :: zs, nz, hle, h => by
    rw [length_cons] at hle h
    rw [map_cons, cons_append, SrlReads, srlRead, if_pos (show 0 < nz by omega)]
    exact ⟨rfl, srlReads_nz zs (nz - 1) (by omega) (by rwa [Nat.sub_right_comm, Nat.sub_sub])⟩

/-- The first zeros of a full run. -/
theorem srlReads_full {bits : List Bool} {kp : ℕ} {zs : List ℕ} (hpos : zs ≠ []) (hle : zs.length ≤ 2 ^ (kp / 8))
    (h : SrlReads ⟨bits, min (kp + 4) kpMax, 2 ^ (kp / 8) - zs.length, false⟩ rest) :
    SrlReads ⟨false :: bits, kp, 0, false⟩ (zs.map (·, (0 : ℤ)) ++ rest) := by
  obtain ⟨z, zs, rfl⟩ := exists_cons_of_ne_nil hpos
  rw [length_cons] at hle h
  rw [map_cons, cons_append, SrlReads, srlRead, readBits_one]
  refine ⟨rfl, srlReads_nz zs (2 ^ (kp / 8) - 1) (by omega) ?_⟩
  rwa [Nat.sub_right_comm]

theorem srlReads_run {tail : List Bool} {numBits : ℕ} {q : ℤ} (hn : 1 ≤ numBits) (hn' : numBits < 16) (hq : q ≠ 0)
    (hmax : q.natAbs ≤ 2 ^ numBits - 1) : ∀ (fuel kp : ℕ) (zs : List ℕ),
    zs.length ≤ fuel →
    SrlReads { bits := tail,
               kp := if (putRun fuel kp zs.length).2 < 6 then 0 else (putRun fuel kp zs.length).2 - 6 } rest →
    SrlReads ⟨(putRun fuel kp zs.length).1 ++ (srlCode numBits (q < 0) q.natAbs ++ tail), kp, 0, false⟩
      (zs.map (·, (0 : ℤ)) ++ (numBits, q) :: rest) := by
  have hval : ∀ kp, srlValue (srlCode numBits (q < 0) q.natAbs ++ tail) kp numBits =
      (q, { bits := tail, kp := if kp < 6 then 0 else kp - 6 }) := by
    intro kp
    rw [srlValue_code (decide (q < 0)) hn hn' (by omega) hmax]
    congr 1
    by_cases hneg : q < 0
    · rw [decide_eq_true hneg, if_pos rfl]
      omega
    · rw [decide_eq_false hneg, if_neg Bool.false_ne_true]
      omega
  have hstop : ∀ (kp : ℕ) (zs : List ℕ), zs.length < 2 ^ (kp / 8) →
      SrlReads { bits := tail, kp := if kp < 6 then 0 else kp - 6 } rest →
      SrlReads ⟨true :: ofNat (kp / 8) zs.length ++ (srlCode numBits (q < 0) q.natAbs ++ tail), kp, 0, false⟩
        (zs.map (·, (0 : ℤ)) ++ (numBits, q) :: rest) := by
    intro kp zs hlt hrest
    cases zs with
    | nil =>
      rw [map_nil, nil_append, cons_append, SrlReads, srlRead, readBits_one]
      dsimp only
      rw [readBits_ofNat hlt]
      rw [hval]
      exact ⟨rfl, hrest⟩
    | cons z zs =>
      rw [map_cons, cons_append, cons_append, SrlReads, srlRead, readBits_one]
      dsimp only
      rw [readBits_ofNat hlt]
      refine ⟨rfl, srlReads_nz zs zs.length le_rfl ?_⟩
      rw [Nat.sub_self, SrlReads, srlRead, hval]
      exact ⟨rfl, hrest⟩
  have hshift : ∀ kp : ℕ, kp >>> lsgr = kp / 8 := fun kp => by rw [lsgr, shiftRight_eq_div_pow]
  intro fuel
  induction fuel with
  | zero =>
    intro kp zs hle hrest
    rw [putRun, hshift] at *
    exact hstop kp zs (lt_of_le_of_lt hle (Nat.two_pow_pos _)) hrest
  | succ fuel ih =>
    intro kp zs hle hrest
    have hpos := Nat.two_pow_pos (kp / 8)
    rw [putRun, hshift] at *
    by_cases hfull : 2 ^ (kp / 8) ≤ zs.length
    · rw [if_pos hfull] at *
      rw [updateParam_up] at *
      have hlen : (zs.drop (2 ^ (kp / 8))).length = zs.length - 2 ^ (kp / 8) := length_drop
      have htake : (zs.take (2 ^ (kp / 8))).length = 2 ^ (kp / 8) := by
        rw [length_take]
        omega
      have hmap : zs.map (·, (0 : ℤ)) ++ (numBits, q) :: rest = (zs.take (2 ^ (kp / 8))).map (·, (0 : ℤ)) ++
          ((zs.drop (2 ^ (kp / 8))).map (·, (0 : ℤ)) ++ (numBits, q) :: rest) := by
        rw [← append_assoc, ← map_append, take_append_drop]
      rw [hmap]
      refine srlReads_full (fun hnil => ?_) htake.le ?_
      · rw [hnil] at htake
        simp at htake
        omega
      · rw [htake, Nat.sub_self, ← hlen]
        rw [← hlen] at hrest
        exact ih _ _ (by omega) hrest
    · rw [if_neg hfull] at *
      exact hstop kp zs (by omega) hrest

theorem srlReads_finish : ∀ (fuel kp : ℕ) (zs : List ℕ), zs.length ≤ fuel →
    SrlReads ⟨finishRun fuel kp zs.length ++ tail, kp, 0, false⟩ (zs.map (·, (0 : ℤ)))
  | 0, kp, zs, hle => by
    rw [length_eq_zero_iff.mp (le_zero.mp hle)]
    trivial
  | fuel + 1, kp, [], _ => trivial
  | fuel + 1, kp, z :: zs, hle => by
    have hpos := Nat.two_pow_pos (kp / 8)
    have hlen : ((z :: zs).drop (2 ^ (kp / 8))).length = (z :: zs).length - 2 ^ (kp / 8) := length_drop
    have hle' : ((z :: zs).take (2 ^ (kp / 8))).length ≤ 2 ^ (kp / 8) := length_take_le _ _
    rw [finishRun, if_pos (show 0 < (z :: zs).length from succ_pos _), ← hlen, cons_append]
    conv => arg 2; rw [← take_append_drop (2 ^ (kp / 8)) (z :: zs), map_append]
    refine srlReads_full (fun hnil => ?_) hle' ?_
    · rw [take_eq_nil_iff] at hnil
      rcases hnil with h | h
      · omega
      · cases h
    · by_cases hall : (z :: zs).length ≤ 2 ^ (kp / 8)
      · rw [drop_of_length_le hall]
        trivial
      · have htake : ((z :: zs).take (2 ^ (kp / 8))).length = 2 ^ (kp / 8) := by
          rw [length_take]
          omega
        rw [htake, Nat.sub_self]
        exact srlReads_finish fuel _ _ (by rw [hlen]; omega)

/-- A value fits the bits it is sent with. -/
def Fits (p : ℕ × ℤ) : Prop := 1 ≤ p.1 ∧ p.1 < 16 ∧ p.2.natAbs ≤ 2 ^ p.1 - 1

/-- **The SRL stream gives the values that went in.** -/
theorem srlReads_srlBits : ∀ (l : List (ℕ × ℤ)) (kp : ℕ) (zs : List ℕ), (∀ p ∈ l, Fits p) →
    SrlReads ⟨srlBits kp zs.length l ++ tail, kp, 0, false⟩ (zs.map (·, (0 : ℤ)) ++ l)
  | [], kp, zs, _ => by
    rw [append_nil]
    exact srlReads_finish tail zs.length kp zs le_rfl
  | (numBits, q) :: rest, kp, zs, h => by
    obtain ⟨hn, hn', hmax⟩ := h (numBits, q) mem_cons_self
    have hrest : ∀ p ∈ rest, Fits p := fun p hp => h p (mem_cons_of_mem _ hp)
    unfold srlBits
    by_cases hq : q = 0
    · have ih := srlReads_srlBits rest kp (zs ++ [numBits]) hrest
      rw [length_append, length_singleton, map_append, append_assoc] at ih
      rw [if_pos hq, hq]
      exact ih
    · rw [if_neg hq]
      dsimp only
      rw [append_assoc, append_assoc]
      exact srlReads_run hn hn' hq hmax zs.length kp zs le_rfl (srlReads_srlBits rest _ [] hrest)

/-! ### The encoder writes these bits -/

theorem trunc_natAbs (v : ℤ) (shift : ℕ) : (trunc v shift).natAbs = v.natAbs >>> shift := by
  unfold trunc
  rcases lt_trichotomy v 0 with h | h | h
  · rw [Int.sign_eq_neg_one_of_neg h, Int.natAbs_mul, Int.natAbs_natCast, Int.natAbs_neg, Int.natAbs_one, one_mul]
  · rw [h]
    simp
  · rw [Int.sign_eq_one_of_pos h, one_mul, Int.natAbs_natCast]

theorem trunc_eq_zero {v : ℤ} {shift : ℕ} : trunc v shift = 0 ↔ v.natAbs >>> shift = 0 := by
  rw [← trunc_natAbs, Int.natAbs_eq_zero]

theorem trunc_neg_iff {v : ℤ} {shift : ℕ} (h : v.natAbs >>> shift ≠ 0) : trunc v shift < 0 ↔ v < 0 := by
  have hpos : (0 : ℤ) < (v.natAbs >>> shift : ℕ) := Int.natCast_pos.mpr (Nat.pos_of_ne_zero h)
  unfold trunc
  rcases lt_trichotomy v 0 with hv | hv | hv
  · rw [Int.sign_eq_neg_one_of_neg hv]
    omega
  · rw [hv] at h
    simp at h
  · rw [Int.sign_eq_one_of_pos hv]
    omega

/-- The SRL bits of a writer if `l` follows to the end of the stream. -/
def UpgradeWriter.srlWith (l : List (ℕ × ℤ)) : List Bool := w.srl ++ srlBits w.kp w.zeros l

/-- The pending zeros and those of `l` can be counted. -/
def UpgradeWriter.Counts (l : List (ℕ × ℤ)) : Prop :=
  ShortRuns (List.replicate w.zeros 0 ++ l.map Prod.snd)

theorem put_srlWith (from_ to_ : ℕ) (w : UpgradeWriter) (v : ℤ) (l : List (ℕ × ℤ))
    (h : w.Counts (srlSymbols from_ to_ v ++ l)) :
    (w.put from_ to_ v).srlWith l = w.srlWith (srlSymbols from_ to_ v ++ l) ∧ (w.put from_ to_ v).Counts l := by
  unfold UpgradeWriter.Counts at *
  unfold UpgradeWriter.put srlSymbols UpgradeWriter.srlWith at *
  by_cases hraw : v.natAbs >>> from_ ≠ 0
  · rw [if_pos hraw] at h ⊢
    rw [if_pos hraw]
    exact ⟨rfl, h⟩
  · rw [if_neg hraw] at h ⊢
    rw [if_neg hraw, singleton_append, srlBits]
    rw [singleton_append, map_cons] at h
    by_cases hq : v.natAbs >>> to_ = 0
    · -- one more pending zero
      have hzero : trunc v to_ = 0 := trunc_eq_zero.mpr hq
      have hmove : List.replicate w.zeros (0 : ℤ) ++ 0 :: l.map Prod.snd =
          List.replicate (w.zeros + 1) 0 ++ l.map Prod.snd := by
        rw [replicate_succ', append_assoc, singleton_append]
      rw [hzero, hmove] at h
      rw [if_pos hq, if_pos hzero]
      rw [mod_eq_of_lt (h.lt rfl)]
      exact ⟨rfl, h⟩
    · rw [if_neg hq, if_neg (fun h => hq (trunc_eq_zero.mp h)), trunc_natAbs]
      refine ⟨by simp only [trunc_neg_iff hq, append_assoc], h.infix ?_⟩
      exact ((suffix_cons _ _).trans (suffix_append _ _)).isInfix

theorem put_raw (from_ to_ : ℕ) (w : UpgradeWriter) (v : ℤ) :
    (w.put from_ to_ v).raw = w.raw ++ (rawSymbols from_ to_ v).flatMap fun p => ofNat p.1 p.2 := by
  unfold UpgradeWriter.put rawSymbols
  by_cases hraw : v.natAbs >>> from_ ≠ 0
  · rw [if_pos hraw, if_pos hraw, flatMap_singleton]
  · rw [if_neg hraw, if_neg hraw, flatMap_nil, append_nil]
    by_cases hq : v.natAbs >>> to_ = 0
    · rw [if_pos hq]
    · rw [if_neg hq]

theorem foldl_put_srlWith (from_ to_ : ℕ) (l : List (ℕ × ℤ)) : ∀ (sb : List ℤ) (w : UpgradeWriter),
    w.Counts (sb.flatMap (srlSymbols from_ to_) ++ l) →
    (sb.foldl (UpgradeWriter.put from_ to_) w).srlWith l = w.srlWith (sb.flatMap (srlSymbols from_ to_) ++ l) ∧
      (sb.foldl (UpgradeWriter.put from_ to_) w).Counts l
  | [], w, h => ⟨rfl, h⟩
  | v :: sb, w, h => by
    rw [flatMap_cons, append_assoc] at h
    obtain ⟨hput, hcounts⟩ := put_srlWith from_ to_ w v _ h
    obtain ⟨hfold, hrest⟩ := foldl_put_srlWith from_ to_ l sb _ hcounts
    rw [foldl_cons, hfold, hput, flatMap_cons, append_assoc]
    exact ⟨rfl, hrest⟩

theorem foldl_put_raw (from_ to_ : ℕ) : ∀ (sb : List ℤ) (w : UpgradeWriter),
    (sb.foldl (UpgradeWriter.put from_ to_) w).raw =
      w.raw ++ (sb.flatMap (rawSymbols from_ to_)).flatMap fun p => ofNat p.1 p.2
  | [], w => by simp
  | v :: sb, w => by
    rw [foldl_cons, foldl_put_raw from_ to_ sb, put_raw, flatMap_cons, flatMap_append, append_assoc]

theorem srlSymbols_fits {from_ to_ : ℕ} (h : from_ > to_) (h' : from_ - to_ < 16) (v : ℤ) :
    ∀ p ∈ srlSymbols from_ to_ v, Fits p := by
  intro p hp
  unfold srlSymbols at hp
  split_ifs at hp with hraw
  · cases hp
  · rw [mem_singleton.mp hp]
    refine ⟨by dsimp only; omega, h', ?_⟩
    dsimp only
    rw [trunc_natAbs]
    rw [not_not, shiftRight_eq_div_pow, div_eq_zero_iff_lt (Nat.two_pow_pos _)] at hraw
    have hlt : v.natAbs / 2 ^ to_ < 2 ^ (from_ - to_) := by
      apply Nat.div_lt_of_lt_mul
      rwa [← pow_add, Nat.add_sub_cancel' h.le]
    omega

theorem rawSymbols_lt {from_ to_ : ℕ} (v : ℤ) : ∀ p ∈ rawSymbols from_ to_ v, p.2 < 2 ^ p.1 := by
  intro p hp
  unfold rawSymbols at hp
  split_ifs at hp
  · rw [mem_singleton.mp hp]
    rw [and_two_pow_sub_one_eq_mod]
    exact mod_lt _ (Nat.two_pow_pos _)
  · cases hp

/-! ### A band rises -/

/-- The decoder has the coefficient `v` without its `shift` low bits, scaled
by 2^`base` modulo 2^16, and knows its sign if that is not zero. -/
structure Element.At (base shift : ℕ) (v : ℤ) (e : Element) : Prop where
  current : e.current = wrap16 (trunc v shift * 2 ^ (shift + base))
  sign : e.sign.sign = (trunc v shift).sign

/-- One more step of truncation: the bits between. -/
theorem trunc_step {v : ℤ} {from_ to_ : ℕ} (h : to_ ≤ from_) :
    trunc v to_ = trunc v from_ * 2 ^ (from_ - to_) + v.sign * (v.natAbs >>> to_ &&& (2 ^ (from_ - to_) - 1) : ℕ) := by
  have hdiv : v.natAbs >>> from_ = v.natAbs >>> to_ / 2 ^ (from_ - to_) := by
    rw [← shiftRight_eq_div_pow, ← shiftRight_add, Nat.add_sub_cancel' h]
  unfold trunc
  rw [and_two_pow_sub_one_eq_mod, hdiv, mul_assoc, ← mul_add]
  congr 1
  have := div_add_mod (v.natAbs >>> to_) (2 ^ (from_ - to_))
  rw [mul_comm]
  exact_mod_cast this.symm

/-- The decoder's shift stops at 32, where nothing is left of 16 bits. -/
theorem two_pow_min (shift : ℕ) : ∃ k : ℤ, (2 : ℤ) ^ min shift 32 = 2 ^ shift + 2 ^ 16 * k := by
  rcases le_total shift 32 with h | h
  · exact ⟨0, by rw [Nat.min_eq_left h, mul_zero, add_zero]⟩
  · refine ⟨2 ^ 16 - 2 ^ (shift - 16), ?_⟩
    have hpow : (2 : ℤ) ^ shift = 2 ^ 16 * 2 ^ (shift - 16) := by rw [← pow_add, Nat.add_sub_cancel' (by omega)]
    rw [Nat.min_eq_right h, hpow]
    ring

/-- Adding the bits between two shifts. -/
theorem at_add {base from_ to_ : ℕ} {v input : ℤ} (h : to_ ≤ from_)
    (hin : trunc v to_ = trunc v from_ * 2 ^ (from_ - to_) + input) :
    wrap16 (wrap16 (trunc v from_ * 2 ^ (from_ + base)) + input * 2 ^ min (to_ + base) 32) =
      wrap16 (trunc v to_ * 2 ^ (to_ + base)) := by
  rw [wrap16_eq_iff, hin, show from_ + base = (from_ - to_) + (to_ + base) by omega, pow_add]
  have hw : ∀ a : ℤ, ∃ k : ℤ, wrap16 a = a + 2 ^ 16 * k := by
    intro a
    exact ⟨-((a + 2 ^ 15) / 2 ^ 16), by unfold wrap16; omega⟩
  obtain ⟨k, hk⟩ := hw (trunc v from_ * (2 ^ (from_ - to_) * 2 ^ (to_ + base)))
  obtain ⟨m, hm⟩ := two_pow_min (to_ + base)
  rw [hk, hm]
  exact ⟨k + input * m, by ring⟩

theorem int_sign_pos {a b : ℤ} (h : a.sign = b.sign) : 0 < a ↔ 0 < b := by
  rw [← Int.sign_eq_one_iff_pos, h, Int.sign_eq_one_iff_pos]

theorem int_sign_neg {a b : ℤ} (h : a.sign = b.sign) : a < 0 ↔ b < 0 := by
  rw [← Int.sign_eq_neg_one_iff_neg, h, Int.sign_eq_neg_one_iff_neg]

theorem trunc_sign {v : ℤ} {shift : ℕ} (h : v.natAbs >>> shift ≠ 0) : (trunc v shift).sign = v.sign := by
  have hpos : (0 : ℤ) < (v.natAbs >>> shift : ℕ) := Int.natCast_pos.mpr (Nat.pos_of_ne_zero h)
  unfold trunc
  rw [Int.sign_mul, Int.sign_eq_one_of_pos hpos, mul_one, Int.sign_sign]

/-- **A band rises from one extra shift to the next**, whatever follows it in
the two streams. -/
theorem upgradeElements_spec {base from_ to_ : ℕ} (h : to_ < from_) (h' : from_ - to_ < 16)
    {srest : List (ℕ × ℤ)} {rrest : List (ℕ × ℕ)} : ∀ (sb : List ℤ) (es : List Element) (s : UpgradeState),
    List.Forall₂ (Element.At base from_) sb es →
    SrlReads s.srl (sb.flatMap (srlSymbols from_ to_) ++ srest) →
    RawReads s.raw (sb.flatMap (rawSymbols from_ to_) ++ rrest) →
    List.Forall₂ (Element.At base to_) sb (upgradeElements (to_ + base) (from_ - to_) true s es).2 ∧
      SrlReads (upgradeElements (to_ + base) (from_ - to_) true s es).1.srl srest ∧
      RawReads (upgradeElements (to_ + base) (from_ - to_) true s es).1.raw rrest
  | [], _, s, .nil, h1, h2 => ⟨.nil, h1, h2⟩
  | v :: sb, e :: es, s, .cons he hes, h1, h2 => by
    rw [flatMap_cons, append_assoc] at h1 h2
    have hbits : v.natAbs >>> to_ &&& (2 ^ (from_ - to_) - 1) < 2 ^ 15 := by
      rw [and_two_pow_sub_one_eq_mod]
      exact lt_of_lt_of_le (mod_lt _ (Nat.two_pow_pos _)) (Nat.pow_le_pow_right (by decide) (by omega))
    have hwrap : wrap16 ((v.natAbs >>> to_ &&& (2 ^ (from_ - to_) - 1) : ℕ) : ℤ) =
        ((v.natAbs >>> to_ &&& (2 ^ (from_ - to_) - 1) : ℕ) : ℤ) :=
      wrap16_of_isInt16 ⟨by omega, by omega⟩
    unfold upgradeElements
    by_cases hraw : v.natAbs >>> from_ ≠ 0
    · -- the sign is known
      have hv0 : v ≠ 0 := by
        rintro rfl
        simp at hraw
      have hto : v.natAbs >>> to_ ≠ 0 := by
        intro h0
        have : v.natAbs >>> from_ = v.natAbs >>> to_ >>> (from_ - to_) := by
          rw [← shiftRight_add, Nat.add_sub_cancel' h.le]
        rw [h0, Nat.zero_shiftRight] at this
        exact hraw this
      have hsign : e.sign.sign = v.sign := he.sign.trans (trunc_sign hraw)
      rw [srlSymbols, if_pos hraw] at h1
      rw [rawSymbols, if_pos hraw] at h2
      have hstep := trunc_step (v := v) h.le
      rcases lt_or_gt_of_ne hv0 with hneg | hpos
      · have hes0 : e.sign < 0 := (int_sign_neg hsign).mpr hneg
        obtain ⟨h3, h4, h5⟩ := upgradeElements_spec h h' sb es { s with raw := (readBits (from_ - to_) s.raw).2 }
          hes h1 h2.2
        dsimp only
        rw [if_neg (by simp; omega), if_pos hes0]
        refine ⟨.cons ⟨?_, ?_⟩ h3, h4, h5⟩
        · rw [Element.add, h2.1, hwrap, he.current]
          refine at_add h.le ?_
          rw [hstep, Int.sign_eq_neg_one_of_neg hneg]
          ring
        · rw [trunc_sign hto]
          exact hsign
      · have hes0 : e.sign > 0 := (int_sign_pos hsign).mpr hpos
        obtain ⟨h3, h4, h5⟩ := upgradeElements_spec h h' sb es { s with raw := (readBits (from_ - to_) s.raw).2 }
          hes h1 h2.2
        dsimp only
        rw [if_pos (.inr hes0)]
        refine ⟨.cons ⟨?_, ?_⟩ h3, h4, h5⟩
        · rw [Element.add, h2.1, hwrap, he.current]
          refine at_add h.le ?_
          rw [hstep, Int.sign_eq_one_of_pos hpos, one_mul]
        · rw [trunc_sign hto]
          exact hsign
    · -- the decoder has a zero
      have hzero : trunc v from_ = 0 := trunc_eq_zero.mpr (not_not.mp hraw)
      have hsign : e.sign = 0 := by
        have := he.sign
        rw [hzero, Int.sign_zero, Int.sign_eq_zero_iff_zero] at this
        exact this
      rw [srlSymbols, if_neg hraw] at h1
      rw [rawSymbols, if_neg hraw] at h2
      obtain ⟨h3, h4, h5⟩ := upgradeElements_spec h h' sb es { s with srl := (srlRead s.srl (from_ - to_)).2 }
        hes h1.2 h2
      dsimp only
      rw [if_neg (by simp [hsign]), if_neg (by simp [hsign])]
      refine ⟨.cons ⟨?_, ?_⟩ h3, h4, h5⟩
      · rw [h1.1]
        rw [he.current]
        refine at_add h.le ?_
        rw [hzero, zero_mul, zero_add]
      · rw [Element.add, h1.1]

/-! ### The bands of a component -/

/-- The extra shifts of a band before and after a pass. -/
structure BandShift where
  from_ : ℕ
  to_ : ℕ
  deriving DecidableEq

/-- A component's loop of `Encoder::encode_upgrade`: the bands that rise. -/
def upgradeEncodeBands : List (BandShift × List ℤ) → UpgradeWriter → Option UpgradeWriter
  | [], w => some w
  | (b, sb) :: bands, w =>
    if b.from_ > b.to_ then (upgradeEncodeBand sb b.from_ b.to_ w).bind (upgradeEncodeBands bands)
    else upgradeEncodeBands bands w

/-- The SRL and the RAW bytes of a component. -/
def encodeUpgrade (bands : List (BandShift × List ℤ)) : Option (List UInt8 × List UInt8) :=
  (upgradeEncodeBands bands {}).map fun w => (upgradeEncodeFinish w, toBytes w.raw)

/-- A component's loop of `Decoder::decode_upgrade`, over bands other than LL;
`base` is the dequantization shift without the extra one. -/
def upgradeBands (base : ℕ) : UpgradeState → List BandShift → List (List Element) → List (List Element)
  | s, b :: bands, es :: rest =>
    let next := upgradeBand s es (b.to_ + base) (b.from_ - b.to_) true
    next.2 :: upgradeBands base next.1 bands rest
  | _, _, rest => rest

def decodeUpgrade (base : ℕ) (srl raw : List UInt8) (bands : List BandShift) (es : List (List Element)) :
    List (List Element) :=
  upgradeBands base { srl := { bits := ofBytes srl }, raw := ofBytes raw } bands es

/-- The extra shifts that a pass may have. -/
def BandShift.Valid (b : BandShift) : Prop := b.to_ ≤ b.from_ ∧ b.from_ - b.to_ < 16

instance (b : BandShift) : Decidable b.Valid := inferInstanceAs (Decidable (_ ∧ _))

/-- What the bands send through SRL. -/
def bandsSrl (bands : List (BandShift × List ℤ)) : List (ℕ × ℤ) :=
  bands.flatMap fun p => if p.1.from_ > p.1.to_ then p.2.flatMap (srlSymbols p.1.from_ p.1.to_) else []

def bandsRaw (bands : List (BandShift × List ℤ)) : List (ℕ × ℕ) :=
  bands.flatMap fun p => if p.1.from_ > p.1.to_ then p.2.flatMap (rawSymbols p.1.from_ p.1.to_) else []

theorem bandsSrl_cons (b : BandShift) (sb : List ℤ) (bands : List (BandShift × List ℤ)) :
    bandsSrl ((b, sb) :: bands) =
      (if b.from_ > b.to_ then sb.flatMap (srlSymbols b.from_ b.to_) else []) ++ bandsSrl bands := flatMap_cons ..

theorem bandsRaw_cons (b : BandShift) (sb : List ℤ) (bands : List (BandShift × List ℤ)) :
    bandsRaw ((b, sb) :: bands) =
      (if b.from_ > b.to_ then sb.flatMap (rawSymbols b.from_ b.to_) else []) ++ bandsRaw bands := flatMap_cons ..

theorem upgradeEncodeBands_spec : ∀ (bands : List (BandShift × List ℤ)) (w : UpgradeWriter),
    (∀ p ∈ bands, p.1.Valid) → w.Counts (bandsSrl bands) →
    ∃ w', upgradeEncodeBands bands w = some w' ∧ w'.srlWith [] = w.srlWith (bandsSrl bands) ∧
      w'.raw = w.raw ++ (bandsRaw bands).flatMap fun p => ofNat p.1 p.2
  | [], w, _, _ => ⟨w, rfl, rfl, by rw [bandsRaw, flatMap_nil, flatMap_nil, append_nil]⟩
  | (b, sb) :: bands, w, h, hcounts => by
    have hb : b.Valid := h (b, sb) mem_cons_self
    have hrest : ∀ p ∈ bands, p.1.Valid := fun p hp => h p (mem_cons_of_mem _ hp)
    rw [bandsSrl_cons] at hcounts
    rw [upgradeEncodeBands, bandsSrl_cons, bandsRaw_cons]
    by_cases hgt : b.from_ > b.to_
    · rw [if_pos hgt] at hcounts
      obtain ⟨hfold, hcounts'⟩ := foldl_put_srlWith b.from_ b.to_ (bandsSrl bands) sb w hcounts
      obtain ⟨w', hw', hsrl, hraw⟩ := upgradeEncodeBands_spec bands (sb.foldl (UpgradeWriter.put b.from_ b.to_) w)
        hrest hcounts'
      refine ⟨w', ?_, ?_, ?_⟩
      · rw [if_pos hgt, upgradeEncodeBand, if_pos ⟨hgt, hb.2⟩]
        exact hw'
      · rw [hsrl, hfold, if_pos hgt]
      · rw [hraw, foldl_put_raw, if_pos hgt, flatMap_append, append_assoc]
    · rw [if_neg hgt, nil_append] at hcounts
      obtain ⟨w', hw', hsrl, hraw⟩ := upgradeEncodeBands_spec bands w hrest hcounts
      rw [if_neg hgt, if_neg hgt, if_neg hgt]
      exact ⟨w', hw', hsrl, hraw⟩

variable {bands : List (BandShift × List ℤ)}

theorem bandsSrl_fits (h : ∀ p ∈ bands, p.1.Valid) : ∀ p ∈ bandsSrl bands, Fits p := by
  intro p hp
  obtain ⟨b, hb, hin⟩ := mem_flatMap.mp hp
  split_ifs at hin with hgt
  · obtain ⟨v, -, hv⟩ := mem_flatMap.mp hin
    exact srlSymbols_fits hgt (h b hb).2 v p hv
  · cases hin

theorem bandsRaw_lt : ∀ p ∈ bandsRaw bands, p.2 < 2 ^ p.1 := by
  intro p hp
  obtain ⟨b, -, hin⟩ := mem_flatMap.mp hp
  split_ifs at hin
  · obtain ⟨v, -, hv⟩ := mem_flatMap.mp hin
    exact rawSymbols_lt v p hv
  · cases hin

/-- The bytes of the SRL stream hold its bits; an empty stream has no values. -/
theorem ofBytes_upgradeEncodeFinish : ∃ tail, ofBytes (upgradeEncodeFinish w) = w.srlWith [] ++ tail := by
  unfold upgradeEncodeFinish UpgradeWriter.srlWith srlBits
  dsimp only
  split_ifs with hnil
  · refine ⟨filler (w.srl ++ finishRun w.zeros w.kp w.zeros).length, ?_⟩
    rw [← ofBytes_toBytes, hnil]
  · exact ⟨filler (w.srl ++ finishRun w.zeros w.kp w.zeros).length ++ ofBytes [0], by
      rw [ofBytes_append, ofBytes_toBytes, append_assoc]⟩

/-- Bands that the client has with the extra shifts of one side. -/
def BandsAt (base : ℕ) (shift : BandShift → ℕ) (bands : List (BandShift × List ℤ)) (es : List (List Element)) : Prop :=
  List.Forall₂ (fun p es => List.Forall₂ (Element.At base (shift p.1)) p.2 es) bands es

theorem upgradeBands_spec {base : ℕ} : ∀ (bands : List (BandShift × List ℤ)) (es : List (List Element))
    (s : UpgradeState),
    (∀ p ∈ bands, p.1.Valid) → BandsAt base BandShift.from_ bands es → SrlReads s.srl (bandsSrl bands) →
    RawReads s.raw (bandsRaw bands) →
    BandsAt base BandShift.to_ bands (upgradeBands base s (bands.map Prod.fst) es)
  | [], _, _, _, .nil, _, _ => .nil
  | (b, sb) :: bands, e :: es, s, h, .cons he hes, h1, h2 => by
    have hb : b.Valid := h (b, sb) mem_cons_self
    have hrest : ∀ p ∈ bands, p.1.Valid := fun p hp => h p (mem_cons_of_mem _ hp)
    rw [bandsSrl_cons] at h1
    rw [bandsRaw_cons] at h2
    rw [map_cons, upgradeBands]
    dsimp only
    by_cases hgt : b.from_ > b.to_
    · rw [if_pos hgt] at h1 h2
      obtain ⟨hband, h1', h2'⟩ := upgradeElements_spec hgt hb.2 sb e s he h1 h2
      rw [upgradeBand, if_neg (by omega)]
      exact .cons hband (upgradeBands_spec bands es _ hrest hes h1' h2')
    · rw [if_neg hgt, nil_append] at h1 h2
      rw [upgradeBand, if_pos (by omega)]
      have hsame : b.from_ = b.to_ := Nat.le_antisymm (Nat.not_lt.mp hgt) hb.1
      refine .cons ?_ (upgradeBands_spec bands es s hrest hes h1 h2)
      rwa [hsame] at he

/-- **An upgrade pass gives exactly the bits it promises.** A client that has
every coefficient of the bands without its `from_` low bits, and the signs of
those that are not zero, has it without its `to_` low bits afterwards. -/
theorem upgrade_reads {base : ℕ} {bands : List (BandShift × List ℤ)} {es : List (List Element)}
    (h : ∀ p ∈ bands, p.1.Valid) (hshort : ShortRuns ((bandsSrl bands).map Prod.snd))
    (hes : BandsAt base BandShift.from_ bands es) :
    ∃ srl raw, encodeUpgrade bands = some (srl, raw) ∧
      BandsAt base BandShift.to_ bands (decodeUpgrade base srl raw (bands.map Prod.fst) es) := by
  obtain ⟨w, hw, hsrl, hraw⟩ := upgradeEncodeBands_spec bands {} h hshort
  obtain ⟨tail, htail⟩ := ofBytes_upgradeEncodeFinish w
  refine ⟨_, _, by rw [encodeUpgrade, hw]; rfl, ?_⟩
  refine upgradeBands_spec bands es _ h hes ?_ ?_
  · have hreads := srlReads_srlBits tail (bandsSrl bands) 8 [] (bandsSrl_fits h)
    have hbits : ofBytes (upgradeEncodeFinish w) = srlBits 8 0 (bandsSrl bands) ++ tail := by
      rw [htail, hsrl]
      rfl
    show SrlReads { bits := ofBytes (upgradeEncodeFinish w) } (bandsSrl bands)
    rw [hbits]
    exact hreads
  · show RawReads (ofBytes (toBytes w.raw)) (bandsRaw bands)
    rw [ofBytes_toBytes, hraw]
    exact rawReads_bits _ _ bandsRaw_lt

/-- Two bands, one of which stays as it is. -/
theorem upgrade_reads_two :
    ∃ srl raw, encodeUpgrade [(⟨3, 1⟩, [6, -9, 0, 1]), (⟨2, 2⟩, [5])] = some (srl, raw) ∧
      BandsAt 4 BandShift.to_ [(⟨3, 1⟩, [6, -9, 0, 1]), (⟨2, 2⟩, [5])]
        (decodeUpgrade 4 srl raw [⟨3, 1⟩, ⟨2, 2⟩] [[⟨0, 0⟩, ⟨-128, -1⟩, ⟨0, 0⟩, ⟨0, 0⟩], [⟨64, 1⟩]]) :=
  upgrade_reads (by decide) (ShortRuns.of_length (by decide))
    (.cons (.cons ⟨by decide, by decide⟩ (.cons ⟨by decide, by decide⟩
      (.cons ⟨by decide, by decide⟩ (.cons ⟨by decide, by decide⟩ .nil))))
        (.cons (.cons ⟨by decide, by decide⟩ .nil) .nil))

/-! ### Zeros that are too many to count -/

theorem foldl_put_zeros : ∀ n : ℕ,
    (List.replicate n 0).foldl (UpgradeWriter.put 1 0) {} = { zeros := n % zerosLimit }
  | 0 => rfl
  | n + 1 => by
    rw [replicate_succ', foldl_append, foldl_put_zeros n]
    show ({ zeros := (n % zerosLimit + 1) % zerosLimit } : UpgradeWriter) = _
    rw [mod_add_mod]

theorem encodeUpgrade_lostRun {n : ℕ} (h : n % zerosLimit = 0) :
    encodeUpgrade [(⟨1, 0⟩, List.replicate n 0 ++ [1])] = some ([0x80, 0], []) := by
  rw [encodeUpgrade, upgradeEncodeBands, upgradeEncodeBand, foldl_append,
    foldl_put_zeros, h]
  rfl

theorem decodeUpgrade_lostRun (es : List Element) : ∃ rest,
    decodeUpgrade 4 [0x80, 0] [] [⟨1, 0⟩] [⟨0, 0⟩ :: es] = [⟨16, 1⟩ :: rest] := by
  rw [decodeUpgrade]
  unfold upgradeBands
  exact ⟨_, rfl⟩

theorem zeros_at : ∀ n : ℕ,
    List.Forall₂ (Element.At 4 1) (List.replicate n 0 ++ [1]) (List.replicate n ⟨0, 0⟩ ++ [⟨0, 0⟩])
  | 0 => .cons ⟨by decide, by decide⟩ .nil
  | n + 1 => .cons ⟨by simp [trunc, wrap16], by simp [trunc]⟩ (zeros_at n)

/-- **2^32 zeros in a row are lost**: the value behind them comes first. -/
theorem upgrade_loses_run : ¬ ∀ (base : ℕ) (bands : List (BandShift × List ℤ)) (es : List (List Element)),
    (∀ p ∈ bands, p.1.Valid ∧ ∀ v ∈ p.2, -32767 ≤ v ∧ v ≤ 32767) → BandsAt base BandShift.from_ bands es →
    ∃ srl raw, encodeUpgrade bands = some (srl, raw) ∧
      BandsAt base BandShift.to_ bands (decodeUpgrade base srl raw (bands.map Prod.fst) es) := by
  intro h
  obtain ⟨srl, raw, hencode, hdecode⟩ := h 4 [(⟨1, 0⟩, List.replicate zerosLimit 0 ++ [1])]
    [List.replicate zerosLimit ⟨0, 0⟩ ++ [⟨0, 0⟩]] (by
      intro p hp
      rw [mem_singleton.mp hp]
      refine ⟨by decide, fun v hv => ?_⟩
      rcases mem_append.mp hv with hv | hv
      · rw [eq_of_mem_replicate hv]
        decide
      · rw [mem_singleton.mp hv]
        decide) (.cons (zeros_at zerosLimit) .nil)
  rw [encodeUpgrade_lostRun (mod_self zerosLimit)] at hencode
  injection hencode with hstreams
  injection hstreams with hsrl hraw
  have hpos : zerosLimit = (zerosLimit - 1) + 1 := rfl
  rw [← hsrl, ← hraw, hpos, replicate_succ, replicate_succ, cons_append, cons_append] at hdecode
  obtain ⟨rest, hrest⟩ := decodeUpgrade_lostRun (List.replicate (zerosLimit - 1) ⟨0, 0⟩ ++ [⟨0, 0⟩])
  change BandsAt 4 _ _ (decodeUpgrade 4 [0x80, 0] [] [⟨1, 0⟩] _) at hdecode
  rw [hrest] at hdecode
  cases hdecode with
  | cons hband _ =>
    cases hband with
    | cons hfirst _ =>
      have hcurrent := hfirst.current
      simp [trunc, wrap16] at hcurrent

end Rfx
end Codec
end Farland
