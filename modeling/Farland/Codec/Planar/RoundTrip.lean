/-
# A planar stream is decoded to the picture it was made from

The decoder reads back every segment the encoder writes, so every scanline,
every plane and the whole stream. `Tail` is the rule for segments: a list of
bytes that the decoder, with a number of values still missing, turns into just
those values.

Key theorems: `writeSegments_writes`, **`decode_encode`**, `encode_survives`.
-/
import Farland.Codec.Planar.Stream
import Farland.Base.ReadBack
import Farland.Lib.Rows
import Mathlib.Data.List.TakeWhile

namespace Farland
namespace Codec
namespace Planar

open List Parse

open Clear (ImageView)

/-! ### Symbols -/

theorem wireToDelta_deltaToWire (value above : UInt8) : wireToDelta (deltaToWire value above) = value - above := by
  have hall : ∀ n : Fin 256, wireToDelta (if (UInt8.ofNat n).toNat < 0x80 then UInt8.ofNat ((UInt8.ofNat n).toNat <<< 1)
      else UInt8.ofNat ((0x100 - (UInt8.ofNat n).toNat) <<< 1 - 1)) = UInt8.ofNat n := by decide +kernel
  have hd := hall ⟨(value - above).toNat, (value - above).toNat_lt⟩
  rw [UInt8.ofNat_toNat] at hd
  exact hd

variable (first : Bool)

theorem addend_zero : addend first 0 = 0 := by cases first <;> rfl

/-! ### Segments -/

variable {run : ℕ}

/-- A control byte with raw values and a run of 0 or at least 3. -/
theorem controlByte_segment {rawCount : ℕ} (hraw : rawCount ≤ maxRawCount) (hrun : run = 0 ∨ minRun ≤ run)
    (hshort : run ≤ maxShortRun) :
    ∃ control, controlByte rawCount run = some control ∧ parseControlByte control.toNat = ⟨rawCount, run⟩ := by
  have hall : ∀ raw nibble : Fin 16, (nibble.val = 0 ∨ 3 ≤ nibble.val) → ∃ control,
    controlByte raw nibble = some control ∧ parseControlByte control.toNat = ⟨raw, nibble⟩ := by
    intro raw nibble hnibble
    refine ⟨UInt8.ofNat (raw.val <<< 4 ||| nibble.val), if_pos ⟨by omega, by omega⟩, ?_⟩
    revert raw nibble
    decide
  simp only [maxRawCount, maxShortRun] at hraw hrun hshort
  exact hall ⟨rawCount, by omega⟩ ⟨run, by omega⟩ hrun

theorem runSegment_segment {piece : ℕ} (hmin : minRun ≤ piece) (hmax : piece ≤ maxRun) :
    ∃ control, runSegment piece = some control ∧ parseControlByte control.toNat = ⟨0, piece⟩ := by
  have hall : ∀ n : Fin 48, 3 ≤ n.val → (runSegment n).map (fun control => parseControlByte control.toNat) =
      some ⟨0, n⟩ := by decide
  simp only [maxRun] at hmin hmax
  obtain ⟨control, hcontrol, hparse⟩ := Option.map_eq_some_iff.mp (hall ⟨piece, by omega⟩ hmin)
  exact ⟨control, hcontrol, hparse⟩

/-- Bytes that give the `left` values still missing. -/
def Tail (first : Bool) (last : UInt8) (left : ℕ) (bytes values : List UInt8) : Prop :=
  ∀ fuel, bytes.length < fuel → (decodeSegments first fuel last left).ReadsBack bytes values

variable (last : UInt8)

theorem Tail.nil : Tail first last 0 [] [] := by
  intro fuel _ rest o
  unfold decodeSegments
  rfl

theorem u8_cons (b : UInt8) (rest : List UInt8) (o : ℕ) : Reader.u8 ⟨b :: rest, o⟩ = .ok (b.toNat, ⟨rest, o + 1⟩) := by
  simp [Reader.u8, Reader.readLe, Reader.bytes, LittleEndian.leValue]

/-- What a segment repeats. -/
def lastOf (first : Bool) (last : UInt8) (raw : List UInt8) : UInt8 := ((raw.map (addend first)).getLast?).getD last

variable (raw : List UInt8)

theorem Tail.segment {first : Bool} {left : ℕ} {bytes values : List UInt8} {control : UInt8}
    (hcontrol : parseControlByte control.toNat = ⟨raw.length, run⟩) (hpos : 0 < raw.length + run)
    (htail : Tail first (lastOf first last raw) left bytes values) :
    Tail first last (raw.length + run + left) (control :: raw ++ bytes)
      (raw.map (addend first) ++ List.replicate run (lastOf first last raw) ++ values) := by
  intro fuel hfuel rest o
  obtain ⟨fuel, rfl⟩ : ∃ f, fuel = f + 1 := ⟨fuel - 1, by omega⟩
  obtain ⟨more, hmore⟩ : ∃ n, raw.length + run + left = n + 1 := ⟨raw.length + run + left - 1, by omega⟩
  have hleft : more + 1 - (raw.length + run) = left := by omega
  have hlen : bytes.length < fuel := by
    simp only [length_cons, length_append] at hfuel
    omega
  rw [hmore]
  unfold decodeSegments
  rw [bind_ok (a := o) rfl]
  change (Reader.u8 >>= _) ⟨control :: (raw ++ bytes ++ rest), o⟩ = _
  rw [bind_ok (u8_cons control _ o)]
  simp only [hcontrol]
  rw [if_neg (by omega), append_assoc, bind_ok (Reader.bytes_append raw (bytes ++ rest) (o + 1)), hleft]
  change (decodeSegments first fuel (lastOf first last raw) left >>= _) _ = _
  rw [bind_ok (htail fuel hlen rest (o + 1 + raw.length))]
  simp only [pure_run, length_cons, length_append]
  congr 3
  omega

/-- What a writer put in front of a tail. -/
def Writes (bytes : List UInt8) (count : ℕ) (last' : Bool → UInt8 → UInt8)
    (values : Bool → UInt8 → List UInt8) : Prop :=
  ∀ first last left tail after, Tail first (last' first last) left tail after →
    Tail first last (count + left) (bytes ++ tail) (values first last ++ after)

theorem runPiece_spec (h : minRun ≤ run) : minRun ≤ runPiece run ∧ runPiece run ≤ maxRun ∧ runPiece run ≤ run ∧
    (run - runPiece run = 0 ∨ minRun ≤ run - runPiece run) := by
  simp only [minRun, maxRun] at h ⊢
  by_cases hrest : 0 < run - min run (32 + 15) ∧ run - min run (32 + 15) < 3
  · have hpiece : runPiece run = run - 3 := if_pos hrest
    omega
  · have hpiece : runPiece run = min run (32 + 15) := if_neg hrest
    omega

theorem writeRunsLoop_writes : ∀ (fuel run : ℕ), run ≤ fuel → (run = 0 ∨ minRun ≤ run) →
    ∃ bytes, writeRunsLoop fuel run = some bytes ∧
      Writes bytes run (fun _ last => last) fun _ last => List.replicate run last
  | fuel, 0, _, _ => by
    refine ⟨[], by unfold writeRunsLoop; rfl, fun first last left tail after htail => ?_⟩
    rw [Nat.zero_add]
    exact htail
  | 0, run + 1, hfuel, _ => by omega
  | fuel + 1, run + 1, hfuel, hrun => by
    have hmin : minRun ≤ run + 1 := hrun.resolve_left (by omega)
    obtain ⟨hpiece, hmax, hle, hrest⟩ := runPiece_spec hmin
    obtain ⟨control, hcontrol, hparse⟩ := runSegment_segment hpiece hmax
    have hless : run + 1 - runPiece (run + 1) ≤ fuel := by
      simp only [minRun] at hpiece
      omega
    obtain ⟨bytes, hbytes, hwrites⟩ := writeRunsLoop_writes fuel _ hless hrest
    refine ⟨control :: bytes, ?_, fun first last left tail after htail => ?_⟩
    · simp only [writeRunsLoop, asserts, if_pos hmin, hcontrol, hbytes]
      rfl
    · have hpos : 0 < ([] : List UInt8).length + runPiece (run + 1) := by
        simp only [minRun] at hpiece
        omega
      have hsegment := Tail.segment last [] hparse hpos (hwrites first last left tail after htail)
      have hcount : ([] : List UInt8).length + runPiece (run + 1) + (run + 1 - runPiece (run + 1) + left) =
          run + 1 + left := by
        simp only [length_nil]
        omega
      have hvalues : List.replicate (run + 1) last = List.replicate (runPiece (run + 1)) last ++
          List.replicate (run + 1 - runPiece (run + 1)) last := by
        rw [← replicate_add]
        congr 1
        omega
      rw [hcount] at hsegment
      dsimp only
      rw [hvalues, append_assoc]
      exact hsegment

theorem writeRuns_writes (h : run = 0 ∨ minRun ≤ run) : ∃ bytes, writeRuns run = some bytes ∧
    Writes bytes run (fun _ last => last) fun _ last => List.replicate run last :=
  writeRunsLoop_writes run run le_rfl h

theorem inlineRun_spec (h : run = 0 ∨ minRun ≤ run) : inlineRun run ≤ run ∧ inlineRun run ≤ maxShortRun ∧
    (inlineRun run = 0 ∨ minRun ≤ inlineRun run) ∧ (run - inlineRun run = 0 ∨ minRun ≤ run - inlineRun run) := by
  simp only [minRun, maxShortRun] at h ⊢
  by_cases hshort : run ≤ 15
  · have hinline : inlineRun run = run := if_pos hshort
    omega
  · by_cases hrest : 3 ≤ run - 15
    · have hinline : inlineRun run = 15 := (if_neg hshort).trans (if_pos hrest)
      omega
    · have hinline : inlineRun run = run - 3 := (if_neg hshort).trans (if_neg hrest)
      omega

/-- The values of a list of raw values and a run. -/
abbrev rawAndRun (run : ℕ) (first : Bool) (last : UInt8) : List UInt8 :=
  raw.map (addend first) ++ List.replicate run (lastOf first last raw)

theorem writeLastSegments_writes {raw : List UInt8} (hraw : raw.length ≤ maxRawCount) (hrun : run = 0 ∨ minRun ≤ run) :
    ∃ bytes, writeLastSegments raw run = some bytes ∧
      Writes bytes (raw.length + run) (fun first last => lastOf first last raw) (rawAndRun raw run) := by
  unfold writeLastSegments
  by_cases hempty : raw = []
  · subst hempty
    obtain ⟨bytes, hbytes, hwrites⟩ := writeRuns_writes hrun
    refine ⟨bytes, by rw [if_pos rfl, hbytes], fun first last left tail after htail => ?_⟩
    rw [length_nil, Nat.zero_add]
    exact hwrites first last left tail after htail
  · obtain ⟨hle, hshort, hinline, hrest⟩ := inlineRun_spec hrun
    obtain ⟨control, hcontrol, hparse⟩ := controlByte_segment hraw hinline hshort
    obtain ⟨bytes, hbytes, hwrites⟩ := writeRuns_writes hrest
    refine ⟨control :: raw ++ bytes, by rw [if_neg hempty, hcontrol, hbytes]; rfl,
      fun first last left tail after htail => ?_⟩
    have hpos : 0 < raw.length + inlineRun run := by
      have := length_pos_iff.mpr hempty
      omega
    have hsegment := Tail.segment last _ hparse hpos (hwrites first (lastOf first last raw) left tail after htail)
    have hcount : raw.length + inlineRun run + (run - inlineRun run + left) = raw.length + run + left := by omega
    have hvalues : List.replicate run (lastOf first last raw) = List.replicate (inlineRun run)
      (lastOf first last raw) ++ List.replicate (run - inlineRun run) (lastOf first last raw) := by
      rw [← replicate_add]
      congr 1
      omega
    rw [hcount] at hsegment
    rw [rawAndRun, hvalues]
    simpa only [append_assoc] using hsegment

/-- What is repeated after a list of raw values is the last of all of them. -/
theorem lastOf_append (a b : List UInt8) : lastOf first (lastOf first last a) b = lastOf first last (a ++ b) := by
  unfold lastOf
  rw [map_append, getLast?_append]
  cases (b.map (addend first)).getLast? <;> simp

theorem writeSegmentsLoop_writes : ∀ (fuel : ℕ) (raw : List UInt8) (run : ℕ), raw.length ≤ fuel →
    (run = 0 ∨ minRun ≤ run) → ∃ bytes, writeSegmentsLoop fuel raw run = some bytes ∧
      Writes bytes (raw.length + run) (fun first last => lastOf first last raw) (rawAndRun raw run)
  | 0, raw, run, hfuel, hrun => writeLastSegments_writes (hfuel.trans (Nat.zero_le _)) hrun
  | fuel + 1, raw, run, hfuel, hrun => by
    unfold writeSegmentsLoop
    by_cases hfull : maxRawCount < raw.length
    · have hlen : (raw.take maxRawCount).length = maxRawCount := by
        rw [length_take]
        omega
      have hdrop : (raw.drop maxRawCount).length ≤ fuel := by
        rw [length_drop]
        simp only [maxRawCount] at hfull ⊢
        omega
      obtain ⟨control, hcontrol, hparse⟩ := controlByte_segment (le_refl maxRawCount) (.inl rfl) (Nat.zero_le _)
      obtain ⟨bytes, hbytes, hwrites⟩ := writeSegmentsLoop_writes fuel _ run hdrop hrun
      refine ⟨control :: raw.take maxRawCount ++ bytes, by rw [if_pos hfull, hcontrol, hbytes]; rfl,
        fun first last left tail after htail => ?_⟩
      have hparse' : parseControlByte control.toNat = ⟨(raw.take maxRawCount).length, 0⟩ := by rw [hlen, hparse]
      have hpos : 0 < (raw.take maxRawCount).length + 0 := by
        rw [hlen]
        decide
      have hlast : lastOf first (lastOf first last (raw.take maxRawCount)) (raw.drop maxRawCount) = lastOf first last
        raw := by
        rw [lastOf_append, take_append_drop]
      dsimp only at htail
      rw [← hlast] at htail
      have hsegment := Tail.segment last _ hparse' hpos (hwrites first _ left tail after htail)
      have hcount : (raw.take maxRawCount).length + 0 + ((raw.drop maxRawCount).length + run + left) =
          raw.length + run + left := by
        rw [length_drop]
        omega
      have hvalues : rawAndRun raw run first last = (raw.take maxRawCount).map (addend first) ++
          rawAndRun (raw.drop maxRawCount) run first (lastOf first last (raw.take maxRawCount)) := by
        rw [rawAndRun, rawAndRun, hlast, ← append_assoc, ← map_append, take_append_drop]
      rw [hcount] at hsegment
      rw [hvalues]
      simpa only [append_assoc, replicate_zero, nil_append] using hsegment
    · rw [if_neg hfull]
      exact writeLastSegments_writes (by omega) hrun

/-- **Raw values and a run are read back.** -/
theorem writeSegments_writes (h : run = 0 ∨ minRun ≤ run) :
    ∃ bytes, writeSegments raw run = some bytes ∧
      Writes bytes (raw.length + run) (fun first last => lastOf first last raw) (rawAndRun raw run) := by
  obtain ⟨bytes, hbytes, hwrites⟩ := writeSegmentsLoop_writes raw.length raw run le_rfl h
  exact ⟨bytes, by rw [writeSegments, asserts, if_pos h, hbytes]; rfl, hwrites⟩

/-! ### Scanlines -/

/-- A group of equal symbols. -/
theorem take_group (symbol : UInt8) (symbols : List UInt8) :
    (symbol :: symbols).take ((symbols.takeWhile (· == symbol)).length + 1) =
      List.replicate ((symbols.takeWhile (· == symbol)).length + 1) symbol := by
  rw [take_succ_cons]
  congr 1
  have htake : symbols.take (symbols.takeWhile (· == symbol)).length = symbols.takeWhile (· == symbol) :=
    (prefix_iff_eq_take.mp ( takeWhile_prefix _)).symm
  rw [htake, eq_replicate_iff]
  refine ⟨rfl, fun b hb => ?_⟩
  simpa using mem_takeWhile_imp hb

theorem group_length_le (symbol : UInt8) (symbols : List UInt8) :
    (symbols.takeWhile (· == symbol)).length + 1 ≤ (symbol :: symbols).length := by
  exact Nat.succ_le_succ ( takeWhile_prefix _).length_le

theorem lastOf_concat (symbol : UInt8) : lastOf first last (raw ++ [symbol]) = addend first symbol := by
  simp [lastOf]

/-- **A scanline is read back**, from any group on. -/
theorem writeRleScanlineLoop_tail : ∀ (fuel : ℕ) (opening : Bool) (pending symbols : List UInt8),
    symbols.length ≤ fuel →
    ∃ bytes, writeRleScanlineLoop fuel opening pending symbols = some bytes ∧ ∀ first last,
      (opening = true → pending = [] ∧ last = 0) →
        Tail first last (pending.length + symbols.length) bytes ((pending ++ symbols).map (addend first))
  | fuel, opening, pending, [], _ => by
    unfold writeRleScanlineLoop
    by_cases hpending : pending = []
    · subst hpending
      exact ⟨[], if_pos rfl, fun first last _ => Tail.nil first last⟩
    · obtain ⟨bytes, hbytes, hwrites⟩ := writeSegments_writes pending (.inl rfl : 0 = 0 ∨ minRun ≤ 0)
      refine ⟨bytes, by rw [if_neg hpending, hbytes], fun first last _ => ?_⟩
      have htail := hwrites first last 0 [] [] (Tail.nil _ _)
      simpa [rawAndRun] using htail
  | 0, _, _, _ :: _, hfuel => by
    rw [length_cons] at hfuel
    omega
  | fuel + 1, opening, pending, symbol :: symbols, hfuel => by
    have hgroup := take_group symbol symbols
    have hle := group_length_le symbol symbols
    have hsplit := take_append_drop ((symbols.takeWhile (· == symbol)).length + 1) (symbol :: symbols)
    unfold writeRleScanlineLoop
    dsimp only
    generalize hlength : (symbols.takeWhile (· == symbol)).length + 1 = length at hgroup hle hsplit ⊢
    have hpos : 0 < length := by omega
    have hless : ((symbol :: symbols).drop length).length ≤ fuel := by
      rw [length_drop]
      omega
    have hcount : length + ((symbol :: symbols).drop length).length = (symbol :: symbols).length := by
      rw [length_drop]
      omega
    obtain ⟨rest, hrest, htail⟩ := writeRleScanlineLoop_tail fuel false [] ((symbol :: symbols).drop length) hless
    by_cases hzeros : (opening && symbol == 0 && decide (minRun ≤ length)) = true
    · -- the scanline opens with zeros, which a run repeats without a raw value
      rw [if_pos hzeros]
      simp only [Bool.and_eq_true, beq_iff_eq, decide_eq_true_eq] at hzeros
      obtain ⟨⟨hopening, rfl⟩, hlong⟩ := hzeros
      obtain ⟨bytes, hbytes, hwrites⟩ := writeSegments_writes [] (.inr hlong : length = 0 ∨ minRun ≤ length)
      refine ⟨bytes ++ rest, by rw [hbytes, hrest]; rfl, fun first last hfirst => ?_⟩
      obtain ⟨rfl, rfl⟩ := hfirst hopening
      have hread := hwrites first 0 _ rest _ (htail first _ (fun h => (by cases h)))
      have hvalues : (([] : List UInt8) ++ (0 :: symbols)).map (addend first) =
          rawAndRun [] length first 0 ++ ((0 :: symbols).drop length).map (addend first) := by
        have hlast : lastOf first 0 [] = addend first 0 := (addend_zero first).symm
        rw [rawAndRun, hlast, map_nil, nil_append, nil_append, ← map_replicate, ← map_append,
          ← hgroup, hsplit]
      have hall : ([] : List UInt8).length + length + (([] : List UInt8).length + ((0 :: symbols).drop length).length) =
          ([] : List UInt8).length + (0 :: symbols).length := by
        rw [length_nil]
        omega
      rw [hvalues, ← hall]
      exact hread
    · rw [if_neg hzeros]
      by_cases hlong : minRun < length
      · rw [if_pos hlong]
        have hrun : length - 1 = 0 ∨ minRun ≤ length - 1 := by omega
        obtain ⟨bytes, hbytes, hwrites⟩ := writeSegments_writes (pending ++ [symbol]) hrun
        refine ⟨bytes ++ rest, by rw [hbytes, hrest]; rfl, fun first last hfirst => ?_⟩
        have hread := hwrites first last _ rest _ (htail first _ (fun h => (by cases h)))
        have hvalues : (pending ++ (symbol :: symbols)).map (addend first) =
            rawAndRun (pending ++ [symbol]) (length - 1) first last ++
              ((symbol :: symbols).drop length).map (addend first) := by
          have hreplicate : List.replicate length symbol = [symbol] ++ List.replicate (length - 1) symbol := by
            rw [← replicate_one, ← replicate_add]
            congr 1
            omega
          rw [rawAndRun, lastOf_concat, ← map_replicate, ← map_append, ← map_append]
          rw [append_assoc pending, ← hreplicate, append_assoc, ← hgroup, hsplit]
        have hall : (pending ++ [symbol]).length + (length - 1) + ((symbol :: symbols).drop length).length =
            pending.length + (symbol :: symbols).length := by
          rw [length_append, length_singleton]
          omega
        rw [hvalues, ← hall]
        simpa using hread
      · rw [if_neg hlong]
        obtain ⟨more, hmore, hread⟩ :=
          writeRleScanlineLoop_tail fuel false (pending ++ (symbol :: symbols).take length)
            ((symbol :: symbols).drop length) hless
        refine ⟨more, hmore, fun first last _ => ?_⟩
        have h := hread first last (fun h => (by cases h))
        have hall : (pending ++ (symbol :: symbols).take length).length + ((symbol :: symbols).drop length).length =
            pending.length + (symbol :: symbols).length := by
          rw [length_append, length_take]
          omega
        rwa [hall, append_assoc, hsplit] at h

theorem writeRleScanline_tail (symbols : List UInt8) : ∃ bytes, writeRleScanline symbols = some bytes ∧
    ∀ first, Tail first 0 symbols.length bytes (symbols.map (addend first)) := by
  obtain ⟨bytes, hbytes, htail⟩ := writeRleScanlineLoop_tail symbols.length true [] symbols le_rfl
  refine ⟨bytes, hbytes, fun first => ?_⟩
  have h := htail first 0 (fun _ => ⟨rfl, rfl⟩)
  rwa [length_nil, Nat.zero_add] at h

/-- What the symbols of a row add to the row above gives the row. -/
theorem add_symbols : ∀ (above row : List UInt8), above.length = row.length →
    List.zipWith (· + ·) above ((List.zipWith deltaToWire row above).map wireToDelta) = row
  | [], [], _ => rfl
  | a :: above, v :: row, h => by
    simp only [zipWith_cons_cons, map_cons, wireToDelta_deltaToWire]
    rw [add_symbols above row (by simpa using h)]
    congr 1
    rw [UInt8.add_comm, UInt8.sub_add_cancel]
  | [], _ :: _, h => by cases h
  | _ :: _, [], h => by cases h

theorem decodeRleScanline_readsBack {above : Option (List UInt8)} (row : List UInt8)
    (habove : ∀ a ∈ above, a.length = row.length) : ∃ bytes, writeRleScanline (symbolsOf above row) = some bytes ∧
      (decodeRleScanline above row.length).ReadsBack bytes row := by
  obtain ⟨bytes, hbytes, htail⟩ := writeRleScanline_tail (symbolsOf above row)
  have hlength : (symbolsOf above row).length = row.length := by
    cases above with
    | none => rfl
    | some a => simp [symbolsOf, habove a rfl]
  refine ⟨bytes, hbytes, fun rest o => ?_⟩
  unfold decodeRleScanline
  rw [bind_ok (a := (bytes ++ rest).length) rfl]
  have hfuel : bytes.length < (bytes ++ rest).length + 1 := by
    rw [length_append]
    omega
  have hread := htail above.isNone _ hfuel rest o
  rw [hlength] at hread
  rw [bind_ok hread]
  cases above with
  | none =>
    have haddend : addend (none : Option (List UInt8)).isNone = id := by
      rfl
    simp only [pure_run, haddend, symbolsOf, map_id]
  | some a =>
    have hrow := add_symbols a row (habove a rfl)
    have haddend : addend (some a).isNone = wireToDelta := by
      rfl
    simp only [pure_run, haddend, symbolsOf, hrow]

/-! ### Planes -/

theorem decodeRlePlane_readsBack {width : ℕ} : ∀ (rows : List (List UInt8)) (above : Option (List UInt8)),
    (∀ row ∈ rows, row.length = width) → (∀ a ∈ above, a.length = width) →
      ∃ bytes, encodeRlePlane above rows = some bytes ∧ (decodeRlePlane width above rows.length).ReadsBack bytes rows
  | [], _, _, _ => ⟨[], rfl, Parse.ReadsBack.pure []⟩
  | row :: rows, above, hrows, habove => by
    have hrow : row.length = width := hrows row mem_cons_self
    have hrest : ∀ r ∈ rows, r.length = width := fun r hr => hrows r (mem_cons_of_mem _ hr)
    obtain ⟨first, hfirst, hread⟩ := decodeRleScanline_readsBack row fun a ha => (habove a ha).trans hrow.symm
    obtain ⟨rest, hbytes, hreads⟩ := decodeRlePlane_readsBack rows (some row) hrest (fun a ha => by
      cases ha
      exact hrow)
    refine ⟨first ++ rest, by rw [encodeRlePlane, hfirst, hbytes]; rfl, ?_⟩
    rw [hrow] at hread
    exact hread.bind (hreads.map (Parse.ReadsBack.pure _))

theorem decodeRawPlane_readsBack {width : ℕ} (rows : List (List UInt8)) (hrows : ∀ row ∈ rows, row.length = width) :
    (decodeRawPlane width rows.length).ReadsBack rows.flatten rows := by
  have hrow : ∀ row ∈ rows, (Reader.bytes width).ReadsBack (id row) row := by
    intro row hrow
    rw [← hrows row hrow]
    exact bytes_readsBack row
  have hread := readMany_readsBack rows hrow
  rwa [flatMap_id] at hread

/-- Three planes of one size. -/
structure Planes (g : Geometry) (planes : List (List (List UInt8))) : Prop where
  height : ∀ plane ∈ planes, plane.length = g.height
  width : ∀ plane ∈ planes, ∀ row ∈ plane, row.length = g.width

variable (image : ImageView) (g : Geometry)

theorem splitPlanes_planes : Planes g (splitPlanes image g) := by
  have hplane : ∀ channel, (plane image g channel).length = g.height ∧
      ∀ row ∈ plane image g channel, row.length = g.width := by
    intro channel
    refine ⟨by simp [plane], fun row hrow => ?_⟩
    obtain ⟨scanline, -, rfl⟩ := mem_map.mp hrow
    simp
  constructor
  all_goals
    intro p hp
    simp only [splitPlanes, mem_cons, not_mem_nil, or_false] at hp
    obtain rfl | rfl | rfl := hp
  · exact (hplane _).1
  · exact (hplane _).1
  · exact (hplane _).1
  all_goals exact (hplane _).2

theorem decodePlane_rle {g : Geometry} {plane : List (List UInt8)} (hheight : plane.length = g.height)
    (hwidth : ∀ row ∈ plane, row.length = g.width) :
    ∃ bytes, encodeRlePlane none plane = some bytes ∧ (decodePlane true g).ReadsBack bytes plane := by
  obtain ⟨bytes, hbytes, hread⟩ := decodeRlePlane_readsBack plane none hwidth (fun a ha => (by cases ha))
  rw [hheight] at hread
  exact ⟨bytes, hbytes, hread⟩

theorem decodePlane_raw {g : Geometry} {plane : List (List UInt8)} (hheight : plane.length = g.height)
    (hwidth : ∀ row ∈ plane, row.length = g.width) : (decodePlane false g).ReadsBack plane.flatten plane := by
  have hread := decodeRawPlane_readsBack plane hwidth
  rw [hheight] at hread
  exact hread

/-! ### The stream -/

/-- A stream without an alpha plane: its header, three planes and what may follow them. -/
theorem decodeStream_of_planes (rle : Bool) (pad : List UInt8) {red green blue : List (List UInt8)} {r b u : List UInt8}
    (hred : (decodePlane rle g).ReadsBack r red) (hgreen : (decodePlane rle g).ReadsBack u green)
    (hblue : (decodePlane rle g).ReadsBack b blue) (hpad : pad = if rle then [] else [0]) :
    decodeStream g ⟨UInt8.ofNat (headerNa ||| if rle then headerRle else 0) :: (r ++ (u ++ (b ++ pad))), 0⟩ =
      .ok (assemble g none red green blue, ⟨[], 1 + r.length + u.length + b.length + pad.length⟩) := by
  have hskip : ∀ o, skipPad rle ⟨pad, o⟩ = .ok ((), ⟨[], o + pad.length⟩) := by
    intro o
    subst hpad
    cases rle <;> rfl
  unfold decodeStream
  rw [bind_ok (u8_cons _ _ 0)]
  have hheader : (UInt8.ofNat (headerNa ||| if rle = true then headerRle else 0)).toNat &&& headerCllMask = 0 ∧
      (UInt8.ofNat (headerNa ||| if rle = true then headerRle else 0)).toNat &&& headerCs = 0 ∧
      ((UInt8.ofNat (headerNa ||| if rle = true then headerRle else 0)).toNat &&& headerRle != 0) = rle ∧
      ((UInt8.ofNat (headerNa ||| if rle = true then headerRle else 0)).toNat &&& headerNa == 0) = false := by
    cases rle <;> decide
  obtain ⟨hcll, hcs, hrle, hna⟩ := hheader
  rw [if_neg (not_not_intro hcll), if_neg (not_not_intro hcs)]
  simp only [hrle, hna]
  have halpha : ∀ o xs, decodeAlpha false rle g ⟨xs, o⟩ = .ok (none, ⟨xs, o⟩) := fun _ _ => rfl
  rw [bind_ok (halpha _ _), bind_ok (hred _ _), bind_ok (hgreen _ _), bind_ok (hblue _ _),
    bind_ok (hskip _), bind_ok (Reader.expectEnd_nil _ _)]
  simp [pure_run]

/-- The picture that the planes were split from, opaque. -/
def fullAlpha (image : ImageView) : List UInt8 :=
  (List.range image.height).flatMap fun y => (List.range image.width).flatMap fun x =>
    [sample image x y offsetB, sample image x y offsetG, sample image x y offsetR, 0xFF]

theorem imageRow_imageRow {y : ℕ} (hy : y < g.height) : g.imageRow (g.imageRow y) = y := by
  unfold Geometry.imageRow
  cases g.orientation
  · rfl
  · dsimp only
    omega

theorem imageRow_lt {y : ℕ} (hy : y < g.height) : g.imageRow y < g.height := by
  unfold Geometry.imageRow
  cases g.orientation
  · exact hy
  · dsimp only
    omega

theorem planeSample_plane (channel : ℕ) {scanline x : ℕ} (hy : scanline < g.height) (hx : x < g.width) :
    planeSample (plane image g channel) scanline x = sample image x (g.imageRow scanline)
      channel := by
  have hrow : (plane image g channel).getD scanline [] =
      (List.range g.width).map fun x => sample image x (g.imageRow scanline) channel := by
    rw [getD_eq_getElem?_getD, plane, getElem?_map, getElem?_range hy]
    rfl
  rw [planeSample, hrow, getD_eq_getElem?_getD, getElem?_map, getElem?_range hx]
  rfl

theorem flatMap_range_congr {α : Type} {n : ℕ} {f g : ℕ → List α} (h : ∀ i < n, f i = g i) :
    (List.range n).flatMap f = (List.range n).flatMap g :=
  flatMap_congr fun i hi => h i (mem_range.mp hi)

theorem assemble_splitPlanes (orientation : Orientation) :
    assemble ⟨image.width, image.height, orientation⟩ none
      (plane image ⟨image.width, image.height, orientation⟩ offsetR)
      (plane image ⟨image.width, image.height, orientation⟩ offsetG)
      (plane image ⟨image.width, image.height, orientation⟩ offsetB) = fullAlpha image := by
  refine flatMap_range_congr fun y hy => flatMap_range_congr fun x hx => ?_
  have hrow := imageRow_lt ⟨image.width, image.height, orientation⟩ hy
  have hback := imageRow_imageRow ⟨image.width, image.height, orientation⟩ hy
  rw [planeSample_plane image _ _ hrow hx, planeSample_plane image _ _ hrow hx, planeSample_plane image _ _ hrow hx,
    hback]

theorem flatten_length {rows : List (List UInt8)} {width : ℕ} (h : ∀ row ∈ rows, row.length = width) :
    rows.flatten.length = rows.length * width := by
  rw [length_flatten, map_congr_left h, map_const', sum_replicate, smul_eq_mul]

theorem encodeRaw_length : (encodeRaw (splitPlanes image g)).length = rawStreamSize g := by
  obtain ⟨hheight, hwidth⟩ := splitPlanes_planes image g
  have hplane : ∀ p ∈ splitPlanes image g, p.flatten.length = g.width * g.height := by
    intro p hp
    rw [flatten_length (hwidth p hp), hheight p hp, Nat.mul_comm]
  rw [encodeRaw, rawStreamSize, Geometry.pixels]
  simp only [splitPlanes, flatMap_cons, flatMap_nil, length_cons, length_append, length_nil] at hplane ⊢
  rw [hplane _ (by simp), hplane _ (by simp), hplane _ (by simp)]
  ring

/-- What a mode gives is raw or RLE, and both are read back. -/
theorem encodeWith_spec (orientation : Orientation) (mode : Mode) :
    ∃ bytes, encodeWith (splitPlanes image ⟨image.width, image.height, orientation⟩)
        ⟨image.width, image.height, orientation⟩ mode = some bytes ∧
      (decodeStream ⟨image.width, image.height, orientation⟩ ⟨bytes, 0⟩).map Prod.fst = .ok (fullAlpha image) ∧
      (mode = .automatic → bytes.length ≤ rawStreamSize ⟨image.width, image.height, orientation⟩) := by
  generalize hg : (⟨image.width, image.height, orientation⟩ : Geometry) = g
  obtain ⟨hheight, hwidth⟩ := splitPlanes_planes image g
  have hassemble : assemble g none (plane image g offsetR) (plane image g offsetG) (plane image g offsetB) = fullAlpha
    image := by
    rw [← hg]
    exact assemble_splitPlanes image orientation
  have hraw : (decodeStream g ⟨encodeRaw (splitPlanes image g), 0⟩).map Prod.fst = .ok (fullAlpha image) := by
    have hread := decodeStream_of_planes g false [0]
      (decodePlane_raw (hheight _ (by simp [splitPlanes])) (hwidth (plane image g offsetR) (by simp [splitPlanes])))
      (decodePlane_raw (hheight _ (by simp [splitPlanes])) (hwidth (plane image g offsetG) (by simp [splitPlanes])))
      (decodePlane_raw (hheight _ (by simp [splitPlanes])) (hwidth (plane image g offsetB) (by simp [splitPlanes]))) rfl
    have hbytes : encodeRaw (splitPlanes image g) = UInt8.ofNat (headerNa ||| if false = true then headerRle else 0) ::
        ((plane image g offsetR).flatten ++ ((plane image g offsetG).flatten ++
          ((plane image g offsetB).flatten ++ [0]))) := by
      simp [encodeRaw, splitPlanes]
    rw [hbytes, hread, ← hassemble]
    rfl
  obtain ⟨r, hr, hred⟩ := decodePlane_rle (hheight _ (by simp [splitPlanes]))
    (hwidth (plane image g offsetR) (by simp [splitPlanes]))
  obtain ⟨u, hu, hgreen⟩ := decodePlane_rle (hheight _ (by simp [splitPlanes]))
    (hwidth (plane image g offsetG) (by simp [splitPlanes]))
  obtain ⟨b, hb, hblue⟩ := decodePlane_rle (hheight _ (by simp [splitPlanes]))
    (hwidth (plane image g offsetB) (by simp [splitPlanes]))
  have hrle : encodeRle (splitPlanes image g) = some (UInt8.ofNat (headerNa ||| headerRle) ::
    (r ++ (u ++ (b ++ [])))) := by
    simp [encodeRle, splitPlanes, encodeRlePlanes, hr, hu, hb]
  have hread := decodeStream_of_planes g true [] hred hgreen hblue rfl
  have hrleRead : (decodeStream g ⟨UInt8.ofNat (headerNa ||| headerRle) :: (r ++ (u ++ (b ++ []))), 0⟩).map Prod.fst =
      .ok (fullAlpha image) := by
    have hheader : UInt8.ofNat (headerNa ||| if true = true then headerRle else 0) = UInt8.ofNat
      (headerNa ||| headerRle) := rfl
    rw [← hheader, hread, ← hassemble]
    rfl
  cases mode with
  | raw => exact ⟨_, rfl, hraw, fun h => (by cases h)⟩
  | rle => exact ⟨_, hrle, hrleRead, fun h => (by cases h)⟩
  | automatic =>
    simp only [encodeWith, hrle, Option.bind_eq_bind, Option.bind_some]
    by_cases hlong : rawStreamSize g < (UInt8.ofNat (headerNa ||| headerRle) :: (r ++ (u ++ (b ++ [])))).length
    · refine ⟨_, by rw [if_pos hlong]; rfl, hraw, fun _ => ?_⟩
      rw [encodeRaw_length]
    · exact ⟨_, by rw [if_neg hlong]; rfl, hrleRead, fun _ => Nat.not_lt.mp hlong⟩

/-- **A stream is decoded to the picture it was made from**, and the automatic
mode makes none longer than the raw planes. -/
theorem decode_encode {image : ImageView} (h : Valid image) (mode : Mode) (orientation : Orientation) :
    ∃ bytes, encode image mode orientation = some bytes ∧
      decode bytes image.width image.height orientation = .ok (fullAlpha image) ∧
      (mode = .automatic → bytes.length ≤ rawStreamSize ⟨image.width, image.height, orientation⟩) := by
  obtain ⟨bytes, hbytes, hread, hsize⟩ := encodeWith_spec image orientation mode
  refine ⟨bytes, by rw [encode, asserts, if_pos h]; exact hbytes, ?_, hsize⟩
  obtain ⟨⟨hwidth, hwidth'⟩, ⟨hheight, hheight'⟩, -⟩ := h
  rw [decode, if_neg (by omega), if_neg (by omega)]
  exact hread

/-! ### The picture that comes back -/

theorem fullAlpha_length : (fullAlpha image).length = image.height * (image.width * bytesPerPixel) := by
  refine Rows.length_flatMap_range image.height fun y _ => ?_
  exact Rows.length_flatMap_range image.width fun x _ => rfl

theorem fullAlpha_get {x y channel : ℕ} (hx : x < image.width) (hy : y < image.height)
    (hchannel : channel < bytesPerPixel) :
    (fullAlpha image)[y * (image.width * bytesPerPixel) + (x * bytesPerPixel + channel)]? =
      [sample image x y offsetB, sample image x y offsetG, sample image x y offsetR, 0xFF][channel]? := by
  have hrow : ∀ y < image.height, ((List.range image.width).flatMap fun x =>
      [sample image x y offsetB, sample image x y offsetG, sample image x y offsetR, 0xFF]).length =
        image.width * bytesPerPixel := fun y _ => Rows.length_flatMap_range image.width fun x _ => rfl
  have hin : x * bytesPerPixel + channel < image.width * bytesPerPixel := by
    calc x * bytesPerPixel + channel < x * bytesPerPixel + bytesPerPixel := by omega
      _ = (x + 1) * bytesPerPixel := (Nat.succ_mul _ _).symm
      _ ≤ image.width * bytesPerPixel := Nat.mul_le_mul_right _ hx
  rw [fullAlpha, Rows.getElem?_flatMap_range image.height hrow hy hin]
  have hpixel : ∀ i < image.width, [sample image i y offsetB, sample image i y offsetG, sample image i y offsetR,
      (0xFF : UInt8)].length = bytesPerPixel := fun _ _ => rfl
  exact Rows.getElem?_flatMap_range image.width hpixel hx hchannel

/-- The bytes of a pixel lie in the view. -/
theorem Valid.get {image : ImageView} (h : Valid image) {x y channel : ℕ} (hx : x < image.width)
    (hy : y < image.height) (hchannel : channel < bytesPerPixel) :
    image.data[y * image.stride + x * bytesPerPixel + channel]? = some (sample image x y channel) := by
  obtain ⟨-, -, hstride, hdata, hrows⟩ := h
  have hlast : (image.height - 1) * image.stride ≤ image.data.length - image.width * bytesPerPixel := by
    rw [Nat.mul_comm]
    exact (Nat.mul_le_mul_left _ hrows).trans (Nat.mul_div_le _ _)
  have hy' : y * image.stride ≤ (image.height - 1) * image.stride := Nat.mul_le_mul_right _ (by omega)
  have hx' : x * bytesPerPixel + channel < image.width * bytesPerPixel := by
    simp only [bytesPerPixel] at hchannel ⊢
    omega
  rw [sample, getD_eq_getElem?_getD, getElem?_eq_getElem (by omega), Option.getD_some]

/-- **Every picture survives.** Whatever its stride, in every mode and
orientation, its stream decodes to a picture of the same size with the bytes of
its own blue, green and red and full alpha, and the automatic mode's stream is
no longer than the raw one. -/
theorem encode_survives {image : ImageView} (h : Valid image) (mode : Mode) (orientation : Orientation) :
    ∃ stream out, encode image mode orientation = some stream ∧
      decode stream image.width image.height orientation = .ok out ∧
      out.length = image.height * (image.width * bytesPerPixel) ∧
      (∀ x < image.width, ∀ y < image.height,
        (∀ channel < 3, out[y * (image.width * bytesPerPixel) + (x * bytesPerPixel + channel)]? =
          image.data[y * image.stride + x * bytesPerPixel + channel]?) ∧
        out[y * (image.width * bytesPerPixel) + (x * bytesPerPixel + 3)]? = some 0xFF) ∧
      (mode = .automatic → ∃ raw, encode image .raw orientation = some raw ∧ stream.length ≤ raw.length) := by
  obtain ⟨stream, hstream, hdecode, hsize⟩ := decode_encode h mode orientation
  refine ⟨stream, fullAlpha image, hstream, hdecode, fullAlpha_length image, fun x hx y hy => ⟨?_, ?_⟩, fun hmode => ?_⟩
  · intro channel hchannel
    rw [fullAlpha_get image hx hy (by simp only [bytesPerPixel]; omega),
      h.get hx hy (by simp only [bytesPerPixel]; omega)]
    interval_cases channel <;> rfl
  · rw [fullAlpha_get image hx hy (by decide)]
    rfl
  · refine ⟨encodeRaw (splitPlanes image ⟨image.width, image.height, orientation⟩), ?_, ?_⟩
    · rw [encode, asserts, if_pos h]
      rfl
    · rw [encodeRaw_length]
      exact hsize hmode

/-- A picture of two rows of four black pixels and one that is not, with a gap
between its rows. -/
def gapped : ImageView where
  data := List.replicate 16 0 ++ [1, 2, 3, 4, 9, 9] ++ List.replicate 16 0 ++ [5, 6, 7, 8]
  width := 5
  height := 2
  stride := 22

theorem encode_survives_gapped : ∃ stream out, encode gapped .automatic .bottomUp = some stream ∧
    decode stream 5 2 .bottomUp = .ok out ∧ out.length = 2 * (5 * bytesPerPixel) ∧
    (∀ x < 5, ∀ y < 2, (∀ channel < 3, out[y * (5 * bytesPerPixel) + (x * bytesPerPixel + channel)]? =
        gapped.data[y * 22 + x * bytesPerPixel + channel]?) ∧
      out[y * (5 * bytesPerPixel) + (x * bytesPerPixel + 3)]? = some 0xFF) ∧
    (Mode.automatic = .automatic → ∃ raw, encode gapped .raw .bottomUp = some raw ∧ stream.length ≤ raw.length) :=
  @encode_survives gapped (by decide) .automatic .bottomUp

end Planar
end Codec
end Farland
