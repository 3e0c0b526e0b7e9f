/-
# RLGR entropy coding

`rlgr_encode` of `rfx_kernels.cpp` and `rlgr_decode` of `rfx_common.cpp`. Both
bit writers of the source append bits, most significant first, and fill up
the last byte; their accumulators only group the bits, so what is written is
a list of bits here. In every state `k` is `kp >> LSGR`.

Run-length mode ends a run with the value behind it. A last value that is
zero is sent as a value of magnitude 1, so what a stream decodes to is not
quite what was encoded: `sent` says what it is.

Key theorems: `rlgrDecode_encode`, `sent_eq`, **`rlgr1_roundTrip`**.
-/
import Farland.Codec.Rfx.Common
import Farland.Lib.Bits
import Mathlib.Data.List.TakeWhile

namespace Farland
namespace Codec
namespace Rfx

open Bits List Option Nat

inductive RlgrMode where
  | rlgr1
  | rlgr3
  deriving DecidableEq

def kpMax : ℕ := 80
def lsgr : ℕ := 3
def upGr : ℤ := 4
def dnGr : ℤ := 6
def uqGr : ℤ := 3
def dqGr : ℤ := 3

/-- Adds `delta` and clamps to [0, KPMAX]. -/
def updateParam (param : ℕ) (delta : ℤ) : ℕ := (clampTo 0 kpMax (param + delta)).toNat

/-! ### Encoding -/

/-- A zero run: a 0 for each full run of 2^k zeros, which raises `kp`, then a 1
and the rest in k bits. -/
def putRun : ℕ → ℕ → ℕ → List Bool × ℕ
  | 0, kp, zeros => (true :: ofNat (kp >>> lsgr) zeros, kp)
  | fuel + 1, kp, zeros =>
    if 2 ^ (kp >>> lsgr) ≤ zeros then
      let rest := putRun fuel (updateParam kp upGr) (zeros - 2 ^ (kp >>> lsgr))
      (false :: rest.1, rest.2)
    else (true :: ofNat (kp >>> lsgr) zeros, kp)

/-- The `krp` behind a value with the quotient `vk`. -/
def updateKr (krp vk : ℕ) : ℕ :=
  if vk = 0 then updateParam krp (-2)
  else if vk > 1 then updateParam krp (min vk kpMax : ℕ)
  else krp

/-- Golomb-Rice code of a value: its quotient in ones, a zero, and the low bits. -/
def codeGr (krp val : ℕ) : List Bool × ℕ :=
  let kr := krp >>> lsgr
  let vk := val >>> kr
  (List.replicate vk true ++ false :: ofNat kr val, updateKr krp vk)

def twoMagSign (input : ℤ) : ℕ := if 0 ≤ input then (2 * input).toNat else (-2 * input - 1).toNat

/-- The zeros before the value that ends a run; the last value ends it even
when it is zero. -/
def runEnd (data : List ℤ) : ℕ := min (data.takeWhile (· == 0)).length (data.length - 1)

/-- The first count of zeros that 32 bits do not hold. -/
def zerosLimit : ℕ := 2 ^ 32

/-- The bits of the values; each turn codes one value at least. -/
def rlgrBits (mode : RlgrMode) : ℕ → ℕ → ℕ → List ℤ → List Bool
  | 0, _, _, _ => []
  | _ + 1, _, _, [] => []
  | fuel + 1, kp, krp, v :: rest =>
    if kp >>> lsgr ≠ 0 then
      let end_ := runEnd (v :: rest)
      -- the run is counted in 32 bits
      let zeros := end_ % zerosLimit
      let run := putRun zeros kp zeros
      let input := (v :: rest).getD end_ 0
      let value := codeGr krp (input.natAbs - 1)
      run.1 ++ decide (input < 0) :: value.1 ++
        rlgrBits mode fuel (updateParam run.2 (-dnGr)) value.2 (rest.drop end_)
    else
      match mode with
      | .rlgr1 =>
        let twoMs := twoMagSign v
        let value := codeGr krp twoMs
        value.1 ++ rlgrBits mode fuel (updateParam kp (if twoMs ≠ 0 then -dqGr else uqGr)) value.2 rest
      | .rlgr3 =>
        let twoMs1 := twoMagSign v
        let twoMs2 := twoMagSign (rest.headD 0)
        let value := codeGr krp (twoMs1 + twoMs2)
        let kp' :=
          if twoMs1 ≠ 0 ∧ twoMs2 ≠ 0 then updateParam kp (-2 * dqGr)
          else if twoMs1 = 0 ∧ twoMs2 = 0 then updateParam kp (2 * uqGr)
          else kp
        value.1 ++ ofNat (Nat.size (twoMs1 + twoMs2)) twoMs1 ++ rlgrBits mode fuel kp' value.2 (rest.drop 1)

def rlgrEncode (mode : RlgrMode) (data : List ℤ) : List UInt8 :=
  toBytes (rlgrBits mode data.length (1 <<< lsgr) (1 <<< lsgr) data)

/-! ### Decoding -/

/-- The next `count` bits as a number, if there are as many. -/
def takeBits (count : ℕ) (bits : List Bool) : Option (ℕ × List Bool) :=
  if bits.length < count then none else some (toNat (bits.take count), bits.drop count)

/-- How often `bit` comes before the next other bit, which is skipped. -/
def countRun (bit : Bool) (bits : List Bool) : Option (ℕ × List Bool) :=
  let count := (bits.takeWhile (· == bit)).length
  match bits.drop count with
  | [] => none
  | _ :: rest => some (count, rest)

/-- The zeros of `vk` full runs, and the `kp` behind them. -/
def growRun : ℕ → ℕ → ℕ × ℕ
  | 0, kp => (0, kp)
  | vk + 1, kp =>
    let rest := growRun vk (min (kp + 4) kpMax)
    (2 ^ (kp >>> lsgr) + rest.1, rest.2)

def readRun (kp : ℕ) (bits : List Bool) : Option (ℕ × ℕ × List Bool) := do
  let (vk, bits) ← countRun false bits
  let (run, kp) := growRun vk kp
  let (low, bits) ← takeBits (kp >>> lsgr) bits
  some (run + low, kp, bits)

/-- A Golomb-Rice code, 16 bits wide. -/
def readGr (krp : ℕ) (bits : List Bool) : Option (ℕ × ℕ × List Bool) := do
  let (vk, bits) ← countRun true bits
  let (low, bits) ← takeBits (krp >>> lsgr) bits
  let krp' := if vk = 0 then krp - 2 else if vk ≠ 1 then min (krp + vk) kpMax else krp
  some ((low ||| vk <<< (krp >>> lsgr)) % 2 ^ 16, krp', bits)

/-- code = 2 * magnitude - sign. -/
def magnitudeSign (code : ℕ) : ℤ := if code &&& 1 ≠ 0 then -(((code + 1) >>> 1 : ℕ) : ℤ) else (code >>> 1 : ℕ)

/-- The values of the stream, at most `room`. -/
def rlgrValues (mode : RlgrMode) : ℕ → ℕ → ℕ → List Bool → ℕ → List ℤ
  | 0, _, _, _, _ => []
  | fuel + 1, kp, krp, bits, room =>
    if bits.isEmpty ∨ room = 0 then []
    else if kp >>> lsgr ≠ 0 then
      match readRun kp bits with
      | none => []
      | some (run, kp, bits) =>
        match takeBits 1 bits with
        | none => []
        | some (sign, bits) =>
          match readGr krp bits with
          | none => []
          | some (code, krp, bits) =>
            let zeros := min run room
            let mag : ℤ := code + 1
            List.replicate zeros 0 ++
              if room - zeros = 0 then []
              else wrap16 (if sign ≠ 0 then -mag else mag) ::
                rlgrValues mode fuel (kp - 6) krp bits (room - zeros - 1)
    else
      match readGr krp bits with
      | none => []
      | some (code, krp, bits) =>
        match mode with
        | .rlgr1 =>
          wrap16 (magnitudeSign code) ::
            rlgrValues mode fuel (if code = 0 then min (kp + 3) kpMax else kp - 3) krp bits (room - 1)
        | .rlgr3 =>
          let nIdx := if code = 0 then 0 else if code < 2 ^ 15 then Nat.size code else 32
          if bits.length < nIdx then []
          else
            let val1 := if nIdx < 32 then toNat (bits.take nIdx) else 0
            let val2 := (code + 2 ^ 32 - val1) % 2 ^ 32
            let kp' :=
              if val1 ≠ 0 ∧ val2 ≠ 0 then kp - 6
              else if val1 = 0 ∧ val2 = 0 then min (kp + 6) kpMax
              else kp
            let bits := if nIdx < 32 then bits.drop nIdx else bits
            wrap16 (magnitudeSign val1) ::
              if room = 1 then []
              else wrap16 (magnitudeSign val2) :: rlgrValues mode fuel kp' krp bits (room - 2)

/-- Exactly `count` values; zeros for what the stream does not cover. -/
def rlgrDecode (mode : RlgrMode) (src : List UInt8) (count : ℕ) : Result (List ℤ) :=
  if src.isEmpty then fail .invalidLength "RLGR data is empty"
  else
    let values := rlgrValues mode count (1 <<< lsgr) (1 <<< lsgr) (ofBytes src) count
    .ok (values ++ List.replicate (count - values.length) 0)

/-! ### The parts of a code read back -/

theorem updateParam_up (kp : ℕ) : updateParam kp upGr = min (kp + 4) kpMax := by
  unfold updateParam clampTo upGr kpMax
  omega

theorem updateParam_down (kp : ℕ) (h : kp ≤ kpMax) (d : ℕ) : updateParam kp (-d) = kp - d := by
  unfold updateParam clampTo kpMax at *
  omega

theorem updateParam_le (param : ℕ) (delta : ℤ) : updateParam param delta ≤ kpMax := by
  unfold updateParam clampTo kpMax
  omega

theorem takeBits_ofNat {count v : ℕ} (h : v < 2 ^ count) (rest : List Bool) :
    takeBits count (ofNat count v ++ rest) = some (v, rest) := by
  unfold takeBits
  rw [if_neg (by simp), take_left' (ofNat_length count v), drop_left' (ofNat_length count v), toNat_ofNat h]

theorem countRun_replicate (bit : Bool) (rest : List Bool) : ∀ count : ℕ,
    countRun bit (List.replicate count bit ++ (!bit) :: rest) = some (count, rest) := by
  intro count
  have htake : ((List.replicate count bit ++ (!bit) :: rest).takeWhile (· == bit)).length = count := by
    rw [takeWhile_append_of_pos (by intro b hb; rw [eq_of_mem_replicate hb]; exact beq_self_eq_true bit),
      takeWhile_cons, if_neg (by cases bit <;> decide), append_nil, length_replicate]
  unfold countRun
  dsimp only
  rw [htake, drop_left' length_replicate]

theorem countRun_cons (bit : Bool) (bits : List Bool) :
    countRun bit (bit :: bits) = (countRun bit bits).map fun p => (p.1 + 1, p.2) := by
  unfold countRun
  dsimp only
  rw [takeWhile_cons, if_pos (beq_self_eq_true bit), length_cons, drop_succ_cons]
  cases bits.drop (bits.takeWhile (· == bit)).length <;> rfl

/-- A 0 bit in front of a run is one more full run. -/
theorem readRun_false (kp : ℕ) (bits : List Bool) : readRun kp (false :: bits) =
    (readRun (min (kp + 4) kpMax) bits).map fun p => (2 ^ (kp >>> lsgr) + p.1, p.2) := by
  unfold readRun
  rw [countRun_cons]
  cases countRun false bits with
  | none => rfl
  | some p =>
    simp only [map_some, bind_eq_bind, bind_some, growRun]
    cases takeBits ((growRun p.1 (min (kp + 4) kpMax)).2 >>> lsgr) p.2 with
    | none => rfl
    | some q => simp [Nat.add_assoc]

/-- **A zero run reads back.** -/
theorem readRun_putRun (rest : List Bool) : ∀ (fuel kp zeros : ℕ), zeros ≤ fuel →
    readRun kp ((putRun fuel kp zeros).1 ++ rest) = some (zeros, (putRun fuel kp zeros).2, rest) := by
  have hstop : ∀ kp zeros, zeros < 2 ^ (kp >>> lsgr) →
      readRun kp (true :: ofNat (kp >>> lsgr) zeros ++ rest) = some (zeros, kp, rest) := by
    intro kp zeros hz
    have hc := countRun_replicate false (ofNat (kp >>> lsgr) zeros ++ rest) 0
    rw [replicate_zero, nil_append, Bool.not_false] at hc
    unfold readRun
    rw [cons_append, hc]
    simp only [bind_eq_bind, bind_some, growRun]
    rw [takeBits_ofNat hz]
    simp
  intro fuel
  induction fuel with
  | zero =>
    intro kp zeros hle
    exact hstop kp zeros (lt_of_le_of_lt hle (Nat.two_pow_pos _))
  | succ fuel ih =>
    intro kp zeros hle
    have hpos := Nat.two_pow_pos (kp >>> lsgr)
    unfold putRun
    by_cases hfull : 2 ^ (kp >>> lsgr) ≤ zeros
    · rw [if_pos hfull]
      rw [cons_append, readRun_false, updateParam_up, ih _ _ (by omega), map_some]
      congr 2
      omega
    · rw [if_neg hfull]
      exact hstop kp zeros (by omega)

theorem low_or_high (val kr : ℕ) : val % 2 ^ kr ||| val >>> kr <<< kr = val := by
  apply eq_of_testBit_eq
  intro i
  by_cases h : i < kr
  · simp [h]
  · simp [show kr ≤ i by omega]

theorem updateKr_eq {krp vk : ℕ} (h : krp ≤ kpMax) :
    (if vk = 0 then krp - 2 else if vk ≠ 1 then min (krp + vk) kpMax else krp) = updateKr krp vk := by
  unfold updateKr updateParam clampTo kpMax at *
  split_ifs <;> omega

theorem updateKr_le {krp vk : ℕ} (h : krp ≤ kpMax) : updateKr krp vk ≤ kpMax := by
  unfold updateKr
  split_ifs
  · exact updateParam_le _ _
  · exact updateParam_le _ _
  · exact h

/-- **A Golomb-Rice code reads back.** -/
theorem readGr_codeGr {krp val : ℕ} (hk : krp ≤ kpMax) (hv : val < 2 ^ 16) (rest : List Bool) :
    readGr krp ((codeGr krp val).1 ++ rest) = some (val, (codeGr krp val).2, rest) := by
  have hlow : ofNat (krp >>> lsgr) val = ofNat (krp >>> lsgr) (val % 2 ^ (krp >>> lsgr)) := (ofNat_mod le_rfl val).symm
  have hc := countRun_replicate true (ofNat (krp >>> lsgr) (val % 2 ^ (krp >>> lsgr)) ++ rest) (val >>> (krp >>> lsgr))
  rw [Bool.not_true] at hc
  unfold readGr codeGr
  rw [append_assoc, cons_append, hlow, hc]
  simp only [bind_eq_bind, bind_some, takeBits_ofNat (mod_lt val (Nat.two_pow_pos _)), low_or_high,
    mod_eq_of_lt hv, updateKr_eq hk]

theorem twoMagSign_lt {v : ℤ} (h : IsInt16 v) : twoMagSign v < 2 ^ 16 := by
  unfold IsInt16 at h
  unfold twoMagSign
  split_ifs <;> omega

theorem magnitudeSign_twoMagSign (v : ℤ) : magnitudeSign (twoMagSign v) = v := by
  unfold magnitudeSign twoMagSign
  rw [and_one_is_mod]
  split_ifs <;> omega

/-! ### RLGR1 streams read back -/

/-- What an RLGR1 stream of `data` decodes to. -/
def sent : ℕ → ℕ → List ℤ → List ℤ
  | 0, _, _ => []
  | _ + 1, _, [] => []
  | fuel + 1, kp, v :: rest =>
    if kp >>> lsgr ≠ 0 then
      let zeros := runEnd (v :: rest)
      let input := (v :: rest).getD zeros 0
      List.replicate zeros 0 ++ (if input = 0 then 1 else input) ::
        sent fuel ((putRun zeros kp zeros).2 - 6) (rest.drop zeros)
    else v :: sent fuel (if v = 0 then min (kp + 3) kpMax else kp - 3) rest

theorem putRun_kp_le : ∀ (fuel kp zeros : ℕ), kp ≤ kpMax → (putRun fuel kp zeros).2 ≤ kpMax
  | 0, _, _, h => h
  | fuel + 1, kp, zeros, h => by
    unfold putRun
    split_ifs
    · exact putRun_kp_le fuel _ _ (updateParam_le _ _)
    · exact h

theorem runEnd_lt (v : ℤ) (rest : List ℤ) : runEnd (v :: rest) < (v :: rest).length := by
  unfold runEnd
  rw [length_cons]
  omega

/-- The values in front of the one that ends a run are zeros. -/
theorem take_runEnd (data : List ℤ) : data.take (runEnd data) = List.replicate (runEnd data) 0 := by
  have hle : runEnd data ≤ (data.takeWhile (· == 0)).length := Nat.min_le_left _ _
  have hz : ∀ x ∈ data.takeWhile (· == 0), x = 0 := fun x hx =>
    beq_iff_eq.mp (mem_takeWhile_imp (p := (· == 0)) hx)
  have htake : data.take (runEnd data) = (data.takeWhile (· == 0)).take (runEnd data) := by
    obtain ⟨t, ht⟩ := takeWhile_prefix (· == 0) (l := data)
    have happend := @take_append_of_le_length _ _ t _ hle
    rwa [ht] at happend
  rw [htake, eq_replicate_iff]
  refine ⟨by rw [length_take]; omega, fun x hx => hz x (mem_of_mem_take hx)⟩

theorem twoMagSign_eq_zero {v : ℤ} : twoMagSign v = 0 ↔ v = 0 := by
  unfold twoMagSign
  split_ifs <;> omega

theorem rlgrBits_ne_nil {fuel kp krp : ℕ} {v : ℤ} {rest : List ℤ} (tail : List Bool) :
    (rlgrBits .rlgr1 (fuel + 1) kp krp (v :: rest) ++ tail).isEmpty = false := by
  unfold rlgrBits
  by_cases hk : kp >>> lsgr ≠ 0
  · rw [if_pos hk]
    simp
  · rw [if_neg hk]
    simp [codeGr]

/-- Nowhere are there too many zeros in a row to count. -/
def ShortRuns (data : List ℤ) : Prop := ¬ List.replicate zerosLimit 0 <:+: data

theorem ShortRuns.of_length {data : List ℤ} (h : data.length < zerosLimit) : ShortRuns data := by
  intro hin
  have hle := hin.length_le
  rw [length_replicate] at hle
  omega

theorem ShortRuns.infix {data part : List ℤ} (h : ShortRuns data) (hpart : part <:+: data) : ShortRuns part :=
  fun hin => h (hin.trans hpart)

/-- The zeros in front are a run like any other. -/
theorem ShortRuns.lt {data rest : List ℤ} {n : ℕ} (h : ShortRuns data) (hdata : List.replicate n 0 ++ rest = data) :
    n < zerosLimit := by
  by_contra hge
  rw [← Nat.add_sub_cancel' (Nat.not_lt.mp hge), replicate_add, append_assoc] at hdata
  exact h (hdata ▸ (prefix_append _ _).isInfix)

theorem dropLast_suffix {data part : List ℤ} (h : part <:+ data) : part.dropLast <:+ data.dropLast := by
  obtain ⟨front, rfl⟩ := h
  rcases eq_or_ne part [] with rfl | hne
  · exact nil_suffix
  · rw [dropLast_append_of_ne_nil hne]
    exact suffix_append _ _

theorem ShortRuns.runEnd_lt {v : ℤ} {rest : List ℤ} (h : ShortRuns (v :: rest).dropLast) :
    runEnd (v :: rest) < zerosLimit := by
  have hlt := Rfx.runEnd_lt v rest
  suffices hdata : List.replicate (runEnd (v :: rest)) 0 ++ (v :: rest).dropLast.drop (runEnd (v :: rest)) =
      (v :: rest).dropLast from h.lt hdata
  rw [← take_runEnd, dropLast_eq_take, drop_take]
  conv_rhs => rw [← take_append_drop (runEnd (v :: rest)) ((v :: rest).take _), take_take,
    Nat.min_eq_left (by omega), drop_take]

theorem ShortRuns.drop {v : ℤ} {rest : List ℤ} (h : ShortRuns (v :: rest).dropLast) (n : ℕ) :
    ShortRuns (rest.drop n).dropLast :=
  h.infix (dropLast_suffix ((drop_suffix n rest).trans (suffix_cons v rest))).isInfix

theorem rlgrValues_bits (tail : List Bool) : ∀ (fuel fuel' kp krp : ℕ) (data : List ℤ), (∀ v ∈ data, IsInt16 v) →
    ShortRuns data.dropLast → data.length ≤ fuel → data.length ≤ fuel' → kp ≤ kpMax → krp ≤ kpMax →
    rlgrValues .rlgr1 fuel' kp krp (rlgrBits .rlgr1 fuel kp krp data ++ tail) data.length = sent fuel kp data
  | fuel, 0, kp, krp, data, _, _, _, hf', _, _ => by
    rw [length_eq_zero_iff.mp (le_zero.mp hf')]
    cases fuel <;> rfl
  | fuel, fuel' + 1, kp, krp, [], _, _, _, _, _, _ => by
    rw [rlgrValues, if_pos (.inr rfl)]
    cases fuel <;> rfl
  | 0, fuel' + 1, kp, krp, v :: rest, _, _, hf, _, _, _ => by cases hf
  | fuel + 1, fuel' + 1, kp, krp, v :: rest, h16, hshort, hf, hf', hkp, hkrp => by
    have hrest : ∀ w ∈ rest, IsInt16 w := fun w hw => h16 w (mem_cons_of_mem _ hw)
    rw [rlgrValues, rlgrBits_ne_nil, if_neg (by simp)]
    unfold rlgrBits sent
    by_cases hk : kp >>> lsgr ≠ 0
    · rw [if_pos hk, if_pos hk, if_pos hk]
      have hlt := runEnd_lt v rest
      dsimp only
      rw [mod_eq_of_lt hshort.runEnd_lt]
      generalize hz : runEnd (v :: rest) = zeros at hlt ⊢
      have hmem : (v :: rest).getD zeros 0 ∈ v :: rest := by
        rw [getD_eq_getElem?_getD, getElem?_eq_getElem hlt]
        exact getElem_mem hlt
      have hin := h16 _ hmem
      generalize (v :: rest).getD zeros 0 = input at hin ⊢
      have hrun := putRun_kp_le zeros kp zeros hkp
      unfold IsInt16 at hin
      rw [length_cons] at hlt hf hf' ⊢
      have hlen : rest.length + 1 - zeros - 1 = (rest.drop zeros).length := by
        rw [length_drop]
        omega
      rw [append_assoc, append_assoc, readRun_putRun _ zeros kp zeros le_rfl]
      dsimp only
      have hsign : ∀ bits, takeBits 1 (decide (input < 0) :: bits) = some (if input < 0 then 1 else 0, bits) := by
        intro bits
        by_cases hneg : input < 0
        · simp [takeBits, hneg, Bits.toNat]
        · simp [takeBits, hneg, Bits.toNat]
      rw [cons_append, hsign]
      dsimp only
      rw [readGr_codeGr hkrp (by omega)]
      dsimp only
      rw [Nat.min_eq_left (by omega), if_neg (by omega), hlen,
        show updateParam _ (-dnGr) = _ from updateParam_down _ hrun 6,
        rlgrValues_bits tail fuel fuel' _ (codeGr krp (input.natAbs - 1)).2 (rest.drop zeros)
          (fun w hw => hrest w (mem_of_mem_drop hw)) (hshort.drop zeros) (by rw [length_drop]; omega)
          (by rw [length_drop]; omega) (by omega) (updateKr_le hkrp)]
      congr 2
      by_cases hneg : input < 0
      · rw [if_pos hneg, wrap16_of_isInt16 ⟨by omega, by omega⟩]
        omega
      · rw [if_neg hneg, if_neg (by decide)]
        by_cases h0 : input = 0
        · rw [h0]
          rfl
        · rw [wrap16_of_isInt16 ⟨by omega, by omega⟩]
          omega
    · rw [if_neg hk, if_neg hk, if_neg hk]
      have hv := h16 v mem_cons_self
      have hkp' : updateParam kp (if twoMagSign v ≠ 0 then -dqGr else uqGr) =
          if v = 0 then min (kp + 3) kpMax else kp - 3 := by
        by_cases h0 : v = 0
        · rw [if_neg (not_not_intro (twoMagSign_eq_zero.mpr h0)), if_pos h0]
          unfold updateParam clampTo uqGr kpMax
          omega
        · rw [if_pos (fun h => h0 (twoMagSign_eq_zero.mp h)), if_neg h0]
          exact updateParam_down kp hkp 3
      have hkp'' : (if v = 0 then min (kp + 3) kpMax else kp - 3) ≤ kpMax := by
        rw [← hkp']
        exact updateParam_le _ _
      rw [append_assoc, readGr_codeGr hkrp (twoMagSign_lt hv)]
      dsimp only
      rw [length_cons] at hf hf' ⊢
      rw [magnitudeSign_twoMagSign, wrap16_of_isInt16 hv, hkp']
      congr 1
      rw [show (if twoMagSign v = 0 then min (kp + 3) kpMax else kp - 3) = if v = 0 then min (kp + 3) kpMax else kp -
        3 by
        simp only [twoMagSign_eq_zero]]
      exact rlgrValues_bits tail fuel fuel' _ _ rest hrest (hshort.drop 0) (by omega) (by omega) hkp''
        (updateKr_le hkrp)

theorem sent_length : ∀ (fuel kp : ℕ) (data : List ℤ), data.length ≤ fuel → (sent fuel kp data).length = data.length
  | 0, _, data, h => by
    rw [length_eq_zero_iff.mp (le_zero.mp h)]
    rfl
  | fuel + 1, _, [], _ => rfl
  | fuel + 1, kp, v :: rest, h => by
    have hlt := runEnd_lt v rest
    rw [length_cons] at h hlt
    unfold sent
    by_cases hk : kp >>> lsgr ≠ 0
    · rw [if_pos hk, length_append, length_replicate, length_cons,
      sent_length fuel _ _ (by rw [length_drop]; omega), length_drop, length_cons]
      omega
    · rw [if_neg hk, length_cons, sent_length fuel _ _ (by omega), length_cons]

/-- **An RLGR1 stream decodes to what was sent.** -/
theorem rlgrDecode_encode {data : List ℤ} (h16 : ∀ v ∈ data, IsInt16 v) (hshort : ShortRuns data.dropLast)
    (hne : data ≠ []) :
    rlgrDecode .rlgr1 (rlgrEncode .rlgr1 data) data.length = .ok (sent data.length (1 <<< lsgr) data) := by
  obtain ⟨v, rest, rfl⟩ := exists_cons_of_ne_nil hne
  have hbytes : (rlgrEncode .rlgr1 (v :: rest)).isEmpty = false := by
    have hbits := @rlgrBits_ne_nil rest.length (1 <<< lsgr) (1 <<< lsgr) v rest []
    rw [append_nil, isEmpty_eq_false_iff, ← length_pos_iff] at hbits
    rw [isEmpty_eq_false_iff, ← length_pos_iff, rlgrEncode, toBytes_length, length_cons]
    omega
  have hdec := rlgrValues_bits (filler (rlgrBits .rlgr1 (v :: rest).length (1 <<< lsgr) (1 <<< lsgr)
    (v :: rest)).length)
    (v :: rest).length (v :: rest).length (1 <<< lsgr) (1 <<< lsgr) (v :: rest) h16 hshort
    le_rfl le_rfl (by decide) (by decide)
  unfold rlgrDecode
  rw [hbytes, if_neg Bool.false_ne_true]
  dsimp only
  rw [rlgrEncode, ofBytes_toBytes, hdec, sent_length _ _ _ le_rfl, Nat.sub_self, replicate_zero, append_nil]

/-! ### What differs -/

/-- The last value goes out in run-length mode. Only the zeros of the data
decide that: they alone move `kp`. -/
def endsInRun : ℕ → ℕ → List ℤ → Bool
  | 0, _, _ => false
  | _ + 1, _, [] => false
  | fuel + 1, kp, v :: rest =>
    if kp >>> lsgr ≠ 0 then
      let zeros := runEnd (v :: rest)
      if rest.drop zeros = [] then true else endsInRun fuel ((putRun zeros kp zeros).2 - 6) (rest.drop zeros)
    else if rest = [] then false
    else endsInRun fuel (if v = 0 then min (kp + 3) kpMax else kp - 3) rest

/-- The last value as it is sent: a zero that ends a run has magnitude 1. -/
def lastSent (inRun : Bool) (last : ℤ) : ℤ := if inRun then (if last = 0 then 1 else last) else last

theorem getD_takeWhile_zero : ∀ l : List ℤ, (l.takeWhile (· == 0)).length < l.length →
    l.getD (l.takeWhile (· == 0)).length 0 ≠ 0
  | [], h => by cases h
  | x :: xs, h => by
    by_cases hx : x = 0
    · subst hx
      rw [takeWhile_cons_of_pos (by rfl), length_cons] at h ⊢
      rw [getD_cons_succ]
      exact getD_takeWhile_zero xs (by simpa using h)
    · rw [takeWhile_cons_of_neg (by simpa using hx)]
      exact hx

/-- A run ends with a zero only at the end of the data. -/
theorem drop_runEnd_of_zero {v : ℤ} {rest : List ℤ} (h : (v :: rest).getD (runEnd (v :: rest)) 0 = 0) :
    rest.drop (runEnd (v :: rest)) = [] := by
  by_contra hne
  have hpos := length_pos_iff.mpr hne
  rw [length_drop] at hpos
  have hend : runEnd (v :: rest) = ((v :: rest).takeWhile (· == 0)).length := by
    unfold runEnd at hpos ⊢
    rw [length_cons] at hpos ⊢
    omega
  rw [hend] at h
  refine getD_takeWhile_zero (v :: rest) ?_ h
  rw [← hend]
  exact runEnd_lt v rest

/-- The data of one turn of run-length mode: zeros, the value and the rest. -/
theorem run_split (v : ℤ) (rest : List ℤ) : v :: rest = List.replicate (runEnd (v :: rest)) 0 ++
      (v :: rest).getD (runEnd (v :: rest)) 0 :: rest.drop (runEnd (v :: rest)) := by
  have hlt := runEnd_lt v rest
  conv_lhs => rw [← take_append_drop (runEnd (v :: rest)) (v :: rest)]
  rw [take_runEnd, drop_eq_getElem_cons hlt, drop_succ_cons, getD_eq_getElem?_getD, getElem?_eq_getElem hlt, getD_some]

/-- **What is sent is the data**, but for a zero at the end of a last run. -/
theorem sent_eq : ∀ (fuel kp : ℕ) (xs : List ℤ) (last : ℤ), xs.length < fuel →
    sent fuel kp (xs ++ [last]) =
      xs ++ [lastSent (endsInRun fuel kp (xs ++ [last])) last]
  | 0, _, _, _, h => by cases h
  | fuel + 1, kp, xs, last, h => by
    obtain ⟨v, rest, hvr⟩ := exists_cons_of_ne_nil (l := xs ++ [last]) (by simp)
    have hlen : rest.length = xs.length := by simpa using (congrArg List.length hvr).symm
    by_cases hk : kp >>> lsgr ≠ 0
    · -- one turn of run-length mode
      have hlt := runEnd_lt v rest
      have hsplit := run_split v rest
      rw [length_cons] at hlt
      rw [hvr, sent, endsInRun, if_pos hk, if_pos hk]
      have hzero := @drop_runEnd_of_zero v rest
      dsimp only
      generalize hz : runEnd (v :: rest) = zeros at *
      generalize (v :: rest).getD zeros 0 = input at *
      rw [← hvr] at hsplit
      rcases eq_nil_or_concat (rest.drop zeros) with hnil | ⟨ys, l', hys⟩
      · rw [hnil] at hsplit ⊢
        obtain ⟨h1, h2⟩ := append_inj' hsplit rfl
        rw [List.cons.injEq] at h2
        rw [if_pos rfl, ← h1, ← h2.1]
        cases fuel <;> rfl
      · rw [concat_eq_append] at hys
        rw [hys] at hsplit hzero ⊢
        have h0 : input ≠ 0 := fun h => by simpa using hzero h
        rw [← cons_append, ← append_assoc] at hsplit
        obtain ⟨h1, h2⟩ := append_inj' hsplit rfl
        rw [List.cons.injEq] at h2
        have hy : ys.length < fuel := by
          have := congrArg List.length h1
          rw [length_append, length_cons] at this
          omega
        rw [if_neg h0, if_neg (show ¬ ys ++ [l'] = [] by simp), sent_eq fuel _ ys l' hy, h1, h2.1, append_assoc,
          cons_append]
    · rw [hvr, sent, endsInRun, if_neg hk, if_neg hk]
      rcases eq_nil_or_concat rest with hnil | ⟨ys, l', hys⟩
      · have hx : xs = [] := by
          rw [hnil] at hlen
          exact length_eq_zero_iff.mp hlen.symm
        subst hx hnil
        rw [nil_append, List.cons.injEq] at hvr
        rw [hvr.1]
        cases fuel <;> rfl
      · rw [concat_eq_append] at hys
        subst hys
        rw [← cons_append] at hvr
        obtain ⟨h1, h2⟩ := append_inj' hvr rfl
        rw [List.cons.injEq] at h2
        have hy : ys.length < fuel := by
          rw [h1, length_cons] at h
          omega
        rw [if_neg (show ¬ ys ++ [l'] = [] by simp), sent_eq fuel _ ys l' hy, h1, h2.1, cons_append]

/-- **Every list of values comes back** whose runs of zeros can be counted, but
for a last zero, which may come back as one. -/
theorem rlgr1_roundTrip {data : List ℤ} (h16 : ∀ v ∈ data, IsInt16 v) (hne : data ≠ [])
    (hshort : ShortRuns data.dropLast) :
    ∃ last, rlgrDecode .rlgr1 (rlgrEncode .rlgr1 data) data.length = .ok (data.dropLast ++ [last]) ∧
      (data.getLast hne ≠ 0 → last = data.getLast hne) ∧ (data.getLast hne = 0 → last = 0 ∨ last = 1) := by
  have hsplit : data.dropLast ++ [data.getLast hne] = data := dropLast_append_getLast hne
  have hlen : data.dropLast.length < data.length := by
    rw [length_dropLast]
    exact sub_lt (length_pos_iff.mpr hne) Nat.one_pos
  have hsent := sent_eq data.length (1 <<< lsgr) data.dropLast (data.getLast hne) hlen
  rw [hsplit] at hsent
  refine ⟨lastSent (endsInRun data.length (1 <<< lsgr) data) (data.getLast hne), ?_, fun h => ?_, fun h => ?_⟩
  · rw [rlgrDecode_encode h16 hshort hne, hsent]
  · unfold lastSent
    rw [if_neg h, ite_self]
  · unfold lastSent
    rw [h, if_pos rfl]
    cases endsInRun data.length (1 <<< lsgr) data
    · exact .inl rfl
    · exact .inr rfl

/-- The smallest value, and a zero at the end of a run. -/
theorem rlgr1_roundTrip_run : ∃ last, rlgrDecode .rlgr1 (rlgrEncode .rlgr1 [-32768, 0, 0, 0]) 4 =
      .ok ([-32768, 0, 0] ++ [last]) ∧
    (([-32768, 0, 0, 0] : List ℤ).getLast (by decide) ≠ 0 → last = ([-32768, 0, 0, 0] : List ℤ).getLast (by decide)) ∧
    (([-32768, 0, 0, 0] : List ℤ).getLast (by decide) = 0 → last = 0 ∨ last = 1) :=
  @rlgr1_roundTrip [-32768, 0, 0, 0] (by decide) (by decide) (ShortRuns.of_length (by decide))

/-! ### A run that is too long to count -/

theorem runEnd_zeros (n : ℕ) : runEnd (List.replicate n 0 ++ [1]) = n := by
  unfold runEnd
  rw [takeWhile_append_of_pos (by simp), length_append, length_append, length_replicate]
  exact Nat.min_self n

/-- A multiple of the limit leaves no run at all. -/
theorem rlgrBits_lostRun {n fuel : ℕ} (h : n % zerosLimit = 0) :
    rlgrBits .rlgr1 (fuel + 1) (1 <<< lsgr) (1 <<< lsgr) (List.replicate n 0 ++ [1]) =
      [true, false, false, false, false] := by
  obtain ⟨v, rest, hvr⟩ := exists_cons_of_ne_nil (l := List.replicate n (0 : ℤ) ++ [1]) (by simp)
  have hend := runEnd_zeros n
  have hsplit : v :: rest = List.replicate n 0 ++ (v :: rest).getD n 0 :: rest.drop n := by
    have hrun := run_split v rest
    rw [← hvr, hend] at hrun
    rwa [hvr] at hrun
  rw [hvr] at hend
  rw [← hvr] at hsplit
  have hparts := append_cancel_left hsplit
  rw [List.cons.injEq] at hparts
  rw [hvr] at hparts
  rw [hvr, rlgrBits]
  dsimp only
  rw [hend, h, ← hparts.1, ← hparts.2]
  cases fuel <;> rfl

theorem rlgrDecode_lostRun {n : ℕ} (h : n % zerosLimit = 0) {count : ℕ} :
    ∃ values, rlgrDecode .rlgr1 (rlgrEncode .rlgr1 (List.replicate n 0 ++ [1])) (count + 1) = .ok (1 :: values) := by
  have hbits : rlgrEncode .rlgr1 (List.replicate n 0 ++ [1]) = [0x80] := by
    rw [rlgrEncode, length_append, length_singleton, rlgrBits_lostRun h]
    rfl
  rw [hbits, rlgrDecode]
  have hvalues : rlgrValues .rlgr1 (count + 1) (1 <<< lsgr) (1 <<< lsgr) (ofBytes [0x80]) (count + 1) =
      1 :: rlgrValues .rlgr1 count 2 6 [false, false, false] count := by
    have hrun : readRun (1 <<< lsgr) (ofBytes [0x80]) = some (0, 8,
      [false, false, false, false, false, false]) := by decide
    rw [rlgrValues, hrun]
    rfl
  rw [hvalues]
  exact ⟨_, rfl⟩

/-- **2^32 zeros in a row are lost**: the value behind them comes first. -/
theorem rlgr1_loses_run : ¬ ∀ (data : List ℤ) (_ : ∀ v ∈ data, IsInt16 v) (hne : data ≠ []),
    ∃ last, rlgrDecode .rlgr1 (rlgrEncode .rlgr1 data) data.length = .ok (data.dropLast ++ [last]) ∧
      (data.getLast hne ≠ 0 → last = data.getLast hne) ∧ (data.getLast hne = 0 → last = 0 ∨ last = 1) := by
  intro h
  obtain ⟨last, hlast, -⟩ := h (List.replicate zerosLimit 0 ++ [1]) (by
    intro v hv
    rcases mem_append.mp hv with hv | hv
    · rw [eq_of_mem_replicate hv]
      decide
    · rw [mem_singleton.mp hv]
      decide) (by simp)
  obtain ⟨values, hvalues⟩ := @rlgrDecode_lostRun zerosLimit (mod_self zerosLimit) zerosLimit
  rw [length_append, length_replicate, length_singleton, hvalues, dropLast_concat] at hlast
  have hpos : zerosLimit = (zerosLimit - 1) + 1 := rfl
  rw [hpos, replicate_succ, cons_append] at hlast
  injection hlast with hlist
  injection hlist with hhead
  cases hhead

end Rfx
end Codec
end Farland
