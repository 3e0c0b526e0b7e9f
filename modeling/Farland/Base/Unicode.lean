/-
# Text, both ways

Text as characters: `utf8 cs` and `utf16 cs` are the two encodings of a list of
scalar values, and the conversions of `base/text.cpp` take one into the other.
Whatever bytes they are given, they write well-formed text. A byte below 0x80
is a character of its own, so well-formed text may be cut at it.

Key theorems: `nextUtf8_utf8Of`, `utf8ToUtf16le_utf8`, `utf16leToUtf8_utf16`,
`utf16leToUtf8_wellFormed`, `wellFormed_of_append`.
-/
import Farland.Base.Text

namespace Farland

open List

/-- The text of some characters. -/
def utf8 (cs : List Char) : Text := cs.flatMap fun c => utf8Of c.toNat

/-- The same in UTF-16LE. -/
def utf16 (cs : List Char) : List UInt8 := cs.flatMap fun c => utf16leOf c.toNat

/-- Well-formed UTF-8. -/
def WellFormed (s : Text) : Prop := ∃ cs, s = utf8 cs

variable (cs : List Char)

theorem utf8_append (ds : List Char) : utf8 (cs ++ ds) = utf8 cs ++ utf8 ds := flatMap_append

variable (c : Char)

theorem utf8_cons (cs : List Char) : utf8 (c :: cs) = utf8Of c.toNat ++ utf8 cs := flatMap_cons

theorem WellFormed.append {s t : Text} (hs : WellFormed s) (ht : WellFormed t) : WellFormed (s ++ t) := by
  obtain ⟨cs, rfl⟩ := hs
  obtain ⟨ds, rfl⟩ := ht
  exact ⟨cs ++ ds, (utf8_append cs ds).symm⟩

theorem WellFormed.nil : WellFormed [] := ⟨[], rfl⟩

theorem WellFormed.of_char : WellFormed (utf8Of c.toNat) := ⟨[c], by rw [utf8, flatMap_singleton]⟩

theorem flatMap_wellFormed {α : Type} {f : α → Text} (h : ∀ a, WellFormed (f a)) : ∀ l : List α,
    WellFormed (l.flatMap f)
  | [] => WellFormed.nil
  | a :: l => by
    rw [flatMap_cons]
    exact (h a).append (flatMap_wellFormed h l)


/-- A scalar value: below the surrogates or above them. -/
theorem scalar : c.toNat < 0xD800 ∨ (0xE000 ≤ c.toNat ∧ c.toNat < 0x110000) := by
  rcases c.valid with h | ⟨h1, h2⟩
  · exact Or.inl h
  · exact Or.inr ⟨h1, h2⟩

variable {v : ℕ}

theorem exists_char (h : v < 0xD800 ∨ (0xE000 ≤ v ∧ v < 0x110000)) : ∃ c : Char, c.toNat = v := by
  have hvalid : v.isValidChar := by
    rcases h with h | ⟨h1, h2⟩
    · exact Or.inl h
    · exact Or.inr ⟨h1, h2⟩
  refine ⟨Char.ofNat v, ?_⟩
  rw [Char.ofNat, dif_pos hvalid]
  rfl

/-! ### One character -/

theorem or_eq_add (i a : ℕ) {b : ℕ} (h : b < 2 ^ i) : 2 ^ i * a ||| b = 2 ^ i * a + b :=
  (Nat.two_pow_add_eq_or_of_lt h a).symm

theorem and_eq_mod (n : ℕ) : n &&& 0x3F = n % 64 := Nat.and_two_pow_sub_one_eq_mod n 6

theorem utf8Of_one (h : v < 0x80) : utf8Of v = [UInt8.ofNat v] := by
  rw [utf8Of, if_pos h]

theorem utf8Of_two (hlo : 0x80 ≤ v) (hhi : v < 0x800) :
    utf8Of v = [UInt8.ofNat (192 + v / 64), UInt8.ofNat (128 + v % 64)] := by
  have h0 : 0xC0 ||| v >>> 6 = 192 + v / 64 := by
    rw [Nat.shiftRight_eq_div_pow]
    exact or_eq_add 6 3 (by omega)
  have h1 : 0x80 ||| v &&& 0x3F = 128 + v % 64 := by
    rw [and_eq_mod]
    exact or_eq_add 6 2 (Nat.mod_lt v (by decide))
  rw [utf8Of, if_neg (by omega), if_pos hhi, h0, h1]

theorem utf8Of_three (hlo : 0x800 ≤ v) (hhi : v < 0x10000) :
    utf8Of v = [UInt8.ofNat (224 + v / 4096), UInt8.ofNat (128 + v / 64 % 64), UInt8.ofNat (128 + v % 64)] := by
  have h0 : 0xE0 ||| v >>> 12 = 224 + v / 4096 := by
    rw [Nat.shiftRight_eq_div_pow]
    exact or_eq_add 5 7 (by omega)
  have h1 : 0x80 ||| v >>> 6 &&& 0x3F = 128 + v / 64 % 64 := by
    rw [and_eq_mod, Nat.shiftRight_eq_div_pow]
    exact or_eq_add 6 2 (Nat.mod_lt _ (by decide))
  have h2 : 0x80 ||| v &&& 0x3F = 128 + v % 64 := by
    rw [and_eq_mod]
    exact or_eq_add 6 2 (Nat.mod_lt v (by decide))
  rw [utf8Of, if_neg (by omega), if_neg (by omega), if_pos hhi, h0, h1, h2]

theorem utf8Of_four (hlo : 0x10000 ≤ v) (hhi : v < 0x110000) :
    utf8Of v = [UInt8.ofNat (240 + v / 262144), UInt8.ofNat (128 + v / 4096 % 64), UInt8.ofNat (128 + v / 64 % 64),
      UInt8.ofNat (128 + v % 64)] := by
  have h0 : 0xF0 ||| v >>> 18 = 240 + v / 262144 := by
    rw [Nat.shiftRight_eq_div_pow]
    exact or_eq_add 4 15 (by omega)
  have h1 : 0x80 ||| v >>> 12 &&& 0x3F = 128 + v / 4096 % 64 := by
    rw [and_eq_mod, Nat.shiftRight_eq_div_pow]
    exact or_eq_add 6 2 (Nat.mod_lt _ (by decide))
  have h2 : 0x80 ||| v >>> 6 &&& 0x3F = 128 + v / 64 % 64 := by
    rw [and_eq_mod, Nat.shiftRight_eq_div_pow]
    exact or_eq_add 6 2 (Nat.mod_lt _ (by decide))
  have h3 : 0x80 ||| v &&& 0x3F = 128 + v % 64 := by
    rw [and_eq_mod]
    exact or_eq_add 6 2 (Nat.mod_lt v (by decide))
  rw [utf8Of, if_neg (by omega), if_neg (by omega), if_neg (by omega), h0, h1, h2, h3]

theorem utf8Lead_two : ∀ x < 32, utf8Lead (192 + x) = some (1, x, 0x80) := by decide
theorem utf8Lead_three : ∀ x < 16, utf8Lead (224 + x) = some (2, x, 0x800) := by decide
theorem utf8Lead_four : ∀ x < 8, utf8Lead (240 + x) = some (3, x, 0x10000) := by decide

theorem continuation : ∀ x < 64, (128 + x) &&& 0xC0 = 0x80 ∧ (128 + x) &&& 0x3F = x := by decide

theorem byte_toNat {n : ℕ} (h : n < 256) : (UInt8.ofNat n).toNat = n := by
  exact Nat.mod_eq_of_lt h

theorem utf8Continue_cons (cp : ℕ) {x : ℕ} (hx : x < 64) (rest : Text) :
    utf8Continue cp (UInt8.ofNat (128 + x) :: rest) = utf8Continue (cp * 64 + x) rest := by
  obtain ⟨hmark, hbits⟩ := continuation x hx
  have hor : cp <<< 6 ||| x = cp * 64 + x := by
    rw [Nat.shiftLeft_eq, mul_comm]
    exact (or_eq_add 6 cp hx).trans (by omega)
  rw [utf8Continue, byte_toNat (by omega), hmark, hbits, hor, if_neg (not_not.mpr rfl)]

theorem not_surrogate : isHighSurrogate c.toNat = false ∧ isLowSurrogate c.toNat = false := by
  have h := scalar c
  unfold isHighSurrogate isLowSurrogate
  simp only [Bool.and_eq_false_iff, decide_eq_false_iff_not]
  omega

/-- **A character is read back**, and just it. -/
theorem nextUtf8_utf8Of (rest : Text) :
    ∃ lead tail, utf8Of c.toNat = lead :: tail ∧ nextUtf8 lead (tail ++ rest) = (c.toNat, rest) := by
  have hc := scalar c
  obtain ⟨hhigh, hlow⟩ := not_surrogate c
  generalize c.toNat = v at *
  have hpass (least : ℕ) (hv : least ≤ v) :
      ¬ (v < least ∨ v > 0x10FFFF ∨ isHighSurrogate v = true ∨ isLowSurrogate v = true) := by
    rw [hhigh, hlow]
    simp only [Bool.false_eq_true, or_false]
    omega
  by_cases h1 : v < 0x80
  · refine ⟨_, _, utf8Of_one h1, ?_⟩
    rw [nextUtf8, byte_toNat (by omega), if_pos h1]
    rfl
  by_cases h2 : v < 0x800
  · refine ⟨_, _, utf8Of_two (not_lt.mp h1) h2, ?_⟩
    have hcp : v / 64 * 64 + v % 64 = v := by omega
    rw [nextUtf8, byte_toNat (by omega), if_neg (by omega), utf8Lead_two _ (by omega)]
    simp only [cons_append, nil_append, length_cons, take_succ_cons, take_zero, drop_succ_cons, drop_zero]
    rw [if_neg (by omega), utf8Continue_cons _ (by omega), utf8Continue, hcp]
    simp only
    rw [if_neg (hpass 0x80 (not_lt.mp h1))]
  by_cases h3 : v < 0x10000
  · refine ⟨_, _, utf8Of_three (not_lt.mp h2) h3, ?_⟩
    have hcp : (v / 4096 * 64 + v / 64 % 64) * 64 + v % 64 = v := by omega
    rw [nextUtf8, byte_toNat (by omega), if_neg (by omega), utf8Lead_three _ (by omega)]
    simp only [cons_append, nil_append, length_cons, take_succ_cons, take_zero, drop_succ_cons, drop_zero]
    rw [if_neg (by omega), utf8Continue_cons _ (by omega), utf8Continue_cons _ (by omega), utf8Continue, hcp]
    simp only
    rw [if_neg (hpass 0x800 (not_lt.mp h2))]
  · refine ⟨_, _, utf8Of_four (not_lt.mp h3) (by omega), ?_⟩
    have hcp : ((v / 262144 * 64 + v / 4096 % 64) * 64 + v / 64 % 64) * 64 + v % 64 = v := by omega
    rw [nextUtf8, byte_toNat (by omega), if_neg (by omega), utf8Lead_four _ (by omega)]
    simp only [cons_append, nil_append, length_cons, take_succ_cons, take_zero, drop_succ_cons, drop_zero]
    rw [if_neg (by omega), utf8Continue_cons _ (by omega), utf8Continue_cons _ (by omega),
      utf8Continue_cons _ (by omega), utf8Continue, hcp]
    simp only
    rw [if_neg (hpass 0x10000 (not_lt.mp h3))]

/-! ### Text as UTF-16 -/

theorem utf16leFrom_utf8 : ∀ fuel, (utf8 cs).length ≤ fuel → utf16leFrom fuel (utf8 cs) = utf16 cs := by
  induction cs with
  | nil =>
    intro fuel _
    cases fuel <;> rfl
  | cons c cs ih =>
    intro fuel hfuel
    obtain ⟨lead, tail, hbytes, hnext⟩ := nextUtf8_utf8Of c (utf8 cs)
    rw [utf8_cons, hbytes, cons_append] at hfuel ⊢
    cases fuel with
    | zero => cases hfuel
    | succ fuel =>
      rw [length_cons, length_append] at hfuel
      rw [utf16leFrom, hnext, ih fuel (by omega)]
      rfl

theorem utf8ToUtf16le_utf8 : utf8ToUtf16le (utf8 cs) = utf16 cs := utf16leFrom_utf8 cs _ le_rfl

/-- The 16-bit units of a character. -/
def unitsOf (cp : ℕ) : List ℕ :=
  if cp ≥ 0x10000 then [0xD800 + (cp - 0x10000) / 1024, 0xDC00 + (cp - 0x10000) % 1024] else [cp]

theorem utf16leOf_eq (cp : ℕ) : utf16leOf cp = (unitsOf cp).flatMap utf16leUnit := by
  have hmod : (cp - 0x10000) &&& 0x3FF = (cp - 0x10000) % 1024 := Nat.and_two_pow_sub_one_eq_mod _ 10
  unfold utf16leOf unitsOf
  rw [hmod, Nat.shiftRight_eq_div_pow]
  split_ifs <;> simp

theorem utf16Units_cons {u : ℕ} (hu : u < 0x10000) (rest : List UInt8) :
    utf16Units (utf16leUnit u ++ rest) = u :: utf16Units rest := by
  have hunit : (UInt8.ofNat u).toNat ||| (UInt8.ofNat (u >>> 8)).toNat <<< 8 = u := by
    rw [UInt8.toNat_ofNat', UInt8.toNat_ofNat', Nat.shiftLeft_eq, Nat.or_comm, Nat.mul_comm]
    exact (or_eq_add 8 _ (Nat.mod_lt u (by decide))).trans (by omega)
  change (_ ||| _) :: utf16Units rest = _
  rw [hunit]

theorem unitsOf_lt : ∀ u ∈ unitsOf c.toNat, u < 0x10000 := by
  have hc := scalar c
  unfold unitsOf
  intro u hu
  split_ifs at hu
  · simp only [mem_cons, not_mem_nil, or_false] at hu
    omega
  · rw [mem_singleton] at hu
    omega

theorem utf16Units_flatMap {us : List ℕ} (h : ∀ u ∈ us, u < 0x10000) (rest : List UInt8) :
    utf16Units (us.flatMap utf16leUnit ++ rest) = us ++ utf16Units rest := by
  induction us with
  | nil => rfl
  | cons u us ih =>
    rw [flatMap_cons, append_assoc, utf16Units_cons (h u mem_cons_self),
      ih fun x hx => h x (mem_cons_of_mem _ hx), cons_append]

/-- The units of some characters. -/
def units (cs : List Char) : List ℕ := cs.flatMap fun c => unitsOf c.toNat

theorem units_lt : ∀ u ∈ units cs, u < 0x10000 := by
  intro u hu
  obtain ⟨c, -, hc⟩ := mem_flatMap.mp hu
  exact unitsOf_lt c u hc

theorem utf16_eq : utf16 cs = (units cs).flatMap utf16leUnit := by
  unfold utf16 units
  rw [flatMap_assoc]
  exact flatMap_congr fun c _ => utf16leOf_eq c.toNat

theorem utf16Units_utf16 (rest : List UInt8) : utf16Units (utf16 cs ++ rest) = units cs ++ utf16Units rest := by
  rw [utf16_eq, utf16Units_flatMap (units_lt cs)]

theorem utf16_length : (utf16 cs).length = 2 * (units cs).length := by
  rw [utf16_eq]
  induction units cs with
  | nil => rfl
  | cons u us ih =>
    rw [flatMap_cons, length_append]
    simp only [utf16leUnit, length_cons, length_nil]
    omega

/-! ### UTF-16 as text -/

variable (odd : Bool)

/-- A unit that is a character of its own. -/
theorem utf8OfUnits_cons {u : ℕ} (hu : u ≠ 0) (hhigh : isHighSurrogate u = false) (hlow : isLowSurrogate u = false)
    (rest : List ℕ) : utf8OfUnits odd (u :: rest) = utf8Of u ++ utf8OfUnits odd rest := by
  cases rest with
  | nil | cons low rest => simp [utf8OfUnits, hu, hhigh, hlow]

theorem utf8OfUnits_unitsOf {c : Char} (hc : c.toNat ≠ 0) (rest : List ℕ) :
    utf8OfUnits odd (unitsOf c.toNat ++ rest) = utf8Of c.toNat ++ utf8OfUnits odd rest := by
  have hscalar := scalar c
  obtain ⟨hhigh, hlow⟩ := not_surrogate c
  unfold unitsOf
  split_ifs with hpair
  · have hhi : isHighSurrogate (0xD800 + (c.toNat - 0x10000) / 1024) = true := by
      simp only [isHighSurrogate, Bool.and_eq_true, decide_eq_true_eq]
      omega
    have hlo : isLowSurrogate (0xDC00 + (c.toNat - 0x10000) % 1024) = true := by
      simp only [isLowSurrogate, Bool.and_eq_true, decide_eq_true_eq]
      omega
    have hcp : 0x10000 + (0xD800 + (c.toNat - 0x10000) / 1024 - 0xD800) <<< 10 +
        (0xDC00 + (c.toNat - 0x10000) % 1024 - 0xDC00) = c.toNat := by
      omega
    simp only [cons_append, nil_append]
    rw [utf8OfUnits, if_neg (by omega), hhi, hlo, Bool.and_self, if_pos rfl, hcp]
  · exact utf8OfUnits_cons odd hc hhigh hlow rest

theorem utf8OfUnits_units {cs : List Char} (h : ∀ c ∈ cs, c.toNat ≠ 0) (rest : List ℕ) :
    utf8OfUnits odd (units cs ++ rest) = utf8 cs ++ utf8OfUnits odd rest := by
  induction cs with
  | nil => rfl
  | cons c cs ih =>
    have hunits : units (c :: cs) ++ rest = unitsOf c.toNat ++ (units cs ++ rest) := by
      rw [units, flatMap_cons, append_assoc]
      rfl
    rw [hunits, utf8OfUnits_unitsOf odd (h c mem_cons_self), ih fun x hx => h x (mem_cons_of_mem _ hx),
      utf8_cons, append_assoc]

/-- **Text survives UTF-16**, when it has no NUL. -/
theorem utf16leToUtf8_utf16 {cs : List Char} (h : ∀ c ∈ cs, c.toNat ≠ 0) : utf16leToUtf8 (utf16 cs) = utf8 cs := by
  have hunits : utf16Units (utf16 cs) = units cs := by
    have happend := utf16Units_utf16 cs []
    rwa [append_nil, show utf16Units [] = [] from rfl, append_nil] at happend
  have hback := utf8OfUnits_units false h []
  have heven : (decide ((utf16 cs).length % 2 ≠ 0)) = false := by
    rw [utf16_length]
    simp
  rw [append_nil, utf8OfUnits, if_neg Bool.false_ne_true, append_nil] at hback
  rw [utf16leToUtf8, hunits, heven, hback]

/-- A NUL ends the text, whatever follows it. -/
theorem utf16leToUtf8_terminated {cs : List Char} (h : ∀ c ∈ cs, c.toNat ≠ 0) (rest : List UInt8) :
    utf16leToUtf8 (utf16 cs ++ 0 :: 0 :: rest) = utf8 cs := by
  have hnul (odd : Bool) (us : List ℕ) : utf8OfUnits odd (0 :: us) = [] := by
    cases us <;> rfl
  rw [utf16leToUtf8, utf16Units_utf16, utf8OfUnits_units _ h]
  change _ ++ utf8OfUnits _ (0 :: utf16Units rest) = _
  rw [hnul, append_nil]

/-! ### Of arbitrary bytes -/

/-- A character that the text of `s` holds is no NUL. -/
def NulFree (cs : List Char) : Prop := ∀ c ∈ cs, c.toNat ≠ 0

theorem utf8Of_wellFormed (h : v < 0xD800 ∨ (0xE000 ≤ v ∧ v < 0x110000)) (h0 : v ≠ 0) :
    ∃ cs, utf8Of v = utf8 cs ∧ NulFree cs := by
  obtain ⟨c, rfl⟩ := exists_char h
  refine ⟨[c], by rw [utf8, flatMap_singleton], ?_⟩
  intro x hx
  rw [mem_singleton] at hx
  exact hx ▸ h0

/-- Text of any units is well formed, and ends in front of the first NUL. -/
theorem utf8OfUnits_wellFormed (us : List ℕ) (h : ∀ u ∈ us, u < 0x10000) :
    ∃ cs, utf8OfUnits odd us = utf8 cs ∧ NulFree cs := by
  have hempty : ∃ cs, ([] : Text) = utf8 cs ∧ NulFree cs := ⟨[], rfl, fun _ hc => absurd hc not_mem_nil⟩
  have hreplacement : ∃ cs, utf8Of replacement = utf8 cs ∧ NulFree cs := utf8Of_wellFormed (by decide) (by decide)
  have happend {s t : Text} (hs : ∃ cs, s = utf8 cs ∧ NulFree cs) (ht : ∃ cs, t = utf8 cs ∧ NulFree cs) :
      ∃ cs, s ++ t = utf8 cs ∧ NulFree cs := by
    obtain ⟨cs, rfl, hcs⟩ := hs
    obtain ⟨ds, rfl, hds⟩ := ht
    refine ⟨cs ++ ds, (utf8_append cs ds).symm, fun c hc => ?_⟩
    rcases mem_append.mp hc with hc | hc
    · exact hcs c hc
    · exact hds c hc
  have hunit {u : ℕ} (hu : u < 0x10000) (h0 : u ≠ 0) :
      ∃ cs, utf8Of (if isHighSurrogate u || isLowSurrogate u then replacement else u) = utf8 cs ∧ NulFree cs := by
    split_ifs with hsurrogate
    · exact hreplacement
    · rw [Bool.not_eq_true, Bool.or_eq_false_iff] at hsurrogate
      simp only [isHighSurrogate, isLowSurrogate, Bool.and_eq_false_iff, decide_eq_false_iff_not] at hsurrogate
      exact utf8Of_wellFormed (by omega) h0
  fun_induction utf8OfUnits odd us with
  | case1 hodd => exact hreplacement
  | case2 hodd | case3 | case5 => exact hempty
  | case4 u h0 ih => exact happend (hunit (h u mem_cons_self) h0) (ih fun _ hx => absurd hx not_mem_nil)
  | case6 u low rest h0 hpair ih =>
    simp only [isHighSurrogate, isLowSurrogate, Bool.and_eq_true, decide_eq_true_eq] at hpair
    refine happend (utf8Of_wellFormed ?_ (by omega)) (ih fun x hx => h x (by simp [hx]))
    omega
  | case7 u low rest h0 hpair ih =>
    exact happend (hunit (h u mem_cons_self) h0) (ih fun x hx => h x (mem_cons_of_mem _ hx))

theorem utf16Units_lt (bytes : List UInt8) : ∀ u ∈ utf16Units bytes, u < 0x10000 := by
  fun_induction utf16Units bytes with
  | case1 low high rest ih =>
    rw [forall_mem_cons]
    refine ⟨?_, ih⟩
    have hlow := low.toNat_lt
    have hhigh := high.toNat_lt
    rw [Nat.or_comm, Nat.shiftLeft_eq, Nat.mul_comm]
    exact (or_eq_add 8 _ hlow).trans_lt (by omega)
  | case2 => exact fun _ hu => absurd hu not_mem_nil

/-- **Whatever it is given**, the conversion writes well-formed text without a NUL. -/
theorem utf16leToUtf8_wellFormed (bytes : List UInt8) : ∃ cs, utf16leToUtf8 bytes = utf8 cs ∧ NulFree cs :=
  utf8OfUnits_wellFormed _ _ (utf16Units_lt bytes)

/-! ### Bytes below 0x80 -/

/-- The bytes of a longer sequence are all above 0x7F. -/
theorem utf8Of_ge (hlo : 0x80 ≤ v) (hhi : v < 0x110000) : ∀ b ∈ utf8Of v, 0x80 ≤ b.toNat := by
  have hbyte {n : ℕ} (h1 : 128 ≤ n) (h2 : n < 256) : 0x80 ≤ (UInt8.ofNat n).toNat := by
    rw [byte_toNat h2]
    exact h1
  by_cases h2 : v < 0x800
  · rw [utf8Of_two hlo h2]
    simp only [forall_mem_cons, not_mem_nil, false_imp_iff, implies_true, and_true]
    exact ⟨hbyte (by omega) (by omega), hbyte (by omega) (by omega)⟩
  by_cases h3 : v < 0x10000
  · rw [utf8Of_three (not_lt.mp h2) h3]
    simp only [forall_mem_cons, not_mem_nil, false_imp_iff, implies_true, and_true]
    exact ⟨hbyte (by omega) (by omega), hbyte (by omega) (by omega), hbyte (by omega) (by omega)⟩
  · rw [utf8Of_four (not_lt.mp h3) hhi]
    simp only [forall_mem_cons, not_mem_nil, false_imp_iff, implies_true, and_true]
    exact ⟨hbyte (by omega) (by omega), hbyte (by omega) (by omega), hbyte (by omega) (by omega),
      hbyte (by omega) (by omega)⟩

/-- No byte of well-formed text is above 0xF7. -/
theorem WellFormed.lt {s : Text} (h : WellFormed s) : ∀ b ∈ s, b.toNat < 0xF8 := by
  obtain ⟨cs, rfl⟩ := h
  intro b hb
  obtain ⟨c, -, hc⟩ := mem_flatMap.mp hb
  have hscalar := scalar c
  by_cases h1 : c.toNat < 0x80
  · rw [utf8Of_one h1, mem_singleton] at hc
    rw [hc, byte_toNat (by omega)]
    omega
  by_cases h2 : c.toNat < 0x800
  · rw [utf8Of_two (not_lt.mp h1) h2] at hc
    simp only [mem_cons, not_mem_nil, or_false] at hc
    rcases hc with rfl | rfl <;> rw [byte_toNat (by omega)] <;> omega
  by_cases h3 : c.toNat < 0x10000
  · rw [utf8Of_three (not_lt.mp h2) h3] at hc
    simp only [mem_cons, not_mem_nil, or_false] at hc
    rcases hc with rfl | rfl | rfl <;> rw [byte_toNat (by omega)] <;> omega
  · rw [utf8Of_four (not_lt.mp h3) (by omega)] at hc
    simp only [mem_cons, not_mem_nil, or_false] at hc
    rcases hc with rfl | rfl | rfl | rfl <;> rw [byte_toNat (by omega)] <;> omega

theorem mem_utf8Of {c : Char} {b : UInt8} (hb : b.toNat < 0x80) (h : b ∈ utf8Of c.toNat) : utf8Of c.toNat = [b] := by
  have hc := scalar c
  by_cases hone : c.toNat < 0x80
  · rw [utf8Of_one hone, mem_singleton] at h
    rw [utf8Of_one hone, h]
  · exact absurd (utf8Of_ge (not_lt.mp hone) (by omega) b h) (by omega)

/-- Bytes below 0x80 are text. -/
theorem wellFormed_ascii {s : Text} (h : ∀ b ∈ s, b.toNat < 0x80) : WellFormed s := by
  induction s with
  | nil => exact WellFormed.nil
  | cons b s ih =>
    obtain ⟨hb, hs⟩ := forall_mem_cons.mp h
    obtain ⟨c, hc⟩ := exists_char (v := b.toNat) (by omega)
    have hchar : WellFormed [b] := by
      have hone := WellFormed.of_char c
      rwa [hc, utf8Of_one hb, UInt8.ofNat_toNat] at hone
    exact hchar.append (ih hs)

/-- **Text may be cut** at a byte below 0x80, in front of it and behind it. -/
theorem wellFormed_of_append {xs ys : Text} {b : UInt8} (hb : b.toNat < 0x80) (h : WellFormed (xs ++ b :: ys)) :
    WellFormed xs ∧ WellFormed ys := by
  obtain ⟨cs, hcs⟩ := h
  induction cs generalizing xs with
  | nil => exact absurd hcs (by simp [utf8])
  | cons c cs ih =>
    rw [utf8_cons] at hcs
    rcases append_eq_append_iff.mp hcs with ⟨front, hfront, hrest⟩ | ⟨back, hback, hrest⟩
    · -- the cut is in the first character, so it is one byte
      cases front with
      | nil =>
        rw [append_nil] at hfront
        have hcut : WellFormed [] ∧ WellFormed ys := ih hrest
        exact ⟨⟨[c], by rw [utf8, flatMap_singleton, hfront]⟩, hcut.2⟩
      | cons x front =>
        rw [cons_append, List.cons.injEq] at hrest
        obtain ⟨rfl, hys⟩ := hrest
        have hone : utf8Of c.toNat = [b] := mem_utf8Of hb (by rw [hfront]; simp)
        rw [hfront] at hone
        have hxs : xs = [] := by
          have hlength := congrArg List.length hone
          simp only [length_append, length_cons, length_nil] at hlength
          exact length_eq_zero_iff.mp (by omega)
        subst hxs
        rw [nil_append, List.cons.injEq] at hone
        rw [hone.2] at hys
        exact ⟨WellFormed.nil, ⟨cs, hys⟩⟩
    · obtain ⟨hxs, hys⟩ := ih hrest.symm
      rw [hback]
      exact ⟨WellFormed.append ⟨[c], by rw [utf8, flatMap_singleton]⟩ hxs, hys⟩

theorem nulFree_iff {cs : List Char} : 0 ∉ utf8 cs ↔ NulFree cs := by
  constructor
  · intro h c hc h0
    exact h (mem_flatMap.mpr ⟨c, hc, by rw [h0]; decide⟩)
  · intro h h0
    obtain ⟨c, hc, hbyte⟩ := mem_flatMap.mp h0
    have hone := mem_utf8Of (by decide) hbyte
    have hscalar := scalar c
    have hlow : c.toNat < 0x80 := by
      by_contra hge
      exact absurd (utf8Of_ge (not_lt.mp hge) (by omega) 0 hbyte) (by decide)
    rw [utf8Of_one hlow, List.cons.injEq] at hone
    have hzero := congrArg UInt8.toNat hone.1
    rw [byte_toNat (by omega)] at hzero
    exact h c hc hzero

/-- A string literal is well formed. -/
theorem text_eq_utf8 (s : String) : text s = utf8 s.toList := by
  refine flatMap_congr fun c _ => ?_
  have hc := scalar c
  have hval : c.val.toNat = c.toNat := rfl
  unfold String.utf8EncodeChar
  rw [hval]
  by_cases h1 : c.toNat < 0x80
  · rw [utf8Of_one h1]
    simp only [show c.toNat ≤ 0x7f by omega, if_true]
  by_cases h2 : c.toNat < 0x800
  · rw [utf8Of_two (not_lt.mp h1) h2]
    simp only [show ¬ c.toNat ≤ 0x7f by omega, show c.toNat ≤ 0x7ff by omega, if_true, if_false]
    rw [Nat.mod_eq_of_lt (by omega : c.toNat / 64 < 0x20), add_comm 192, add_comm 128]
  by_cases h3 : c.toNat < 0x10000
  · rw [utf8Of_three (not_lt.mp h2) h3]
    simp only [show ¬ c.toNat ≤ 0x7f by omega, show ¬ c.toNat ≤ 0x7ff by omega, show c.toNat ≤ 0xffff by omega,
      if_true, if_false]
    rw [Nat.mod_eq_of_lt (by omega : c.toNat / 4096 < 0x10), add_comm 224, add_comm 128, add_comm 128]
  · rw [utf8Of_four (not_lt.mp h3) (by omega)]
    simp only [show ¬ c.toNat ≤ 0x7f by omega, show ¬ c.toNat ≤ 0x7ff by omega, show ¬ c.toNat ≤ 0xffff by omega,
      if_false]
    rw [Nat.mod_eq_of_lt (by omega : c.toNat / 262144 < 0x08), add_comm 240, add_comm 128, add_comm 128, add_comm 128]

theorem text_wellFormed (s : String) : WellFormed (text s) := ⟨s.toList, text_eq_utf8 s⟩

end Farland
