/-
# The session table

`encode_sessions` and `decode_sessions` of `session_store.cpp`: one line for
each session, its fields separated by a space. The writer replaces a string
that would break the format, and the reader takes lines with `getline` and
fields with `>>`, which splits at every space character of the locale. The
writer looks for four of the six.

Key theorems: `decodeSessions_encode`, `decodeLine_iff`,
**`sessions_survive_iff`**.
-/
import Farland.Base.Text
import Farland.Daemon.Impl

namespace Farland
namespace Daemon
namespace SessionStore

open Server.Broker List Option

/-! ### Writing -/

/-- What is written for the empty string. -/
def noField : Text := text "-"
def space : UInt8 := 0x20
def newline : UInt8 := 0x0A

def digit (n : ℕ) : UInt8 := if n < 10 then UInt8.ofNat (0x30 + n) else UInt8.ofNat (0x61 + (n - 10))

def hexOf (token : Token) : Text := token.toList.flatMap fun b => [digit (b.toNat / 16), digit (b.toNat % 16)]

/-- The characters that `field_of` looks for. -/
def breaksFormat (c : UInt8) : Bool := c == 0x20 || c == 0x09 || c == 0x0D || c == 0x0A

def fieldOf (value : Text) : Text :=
  if value = [] then noField else if value.any breaksFormat = true then noField else value

/-- The last `fuel` decimal digits, without leading zeros. -/
def decimalFrom : ℕ → ℕ → Text
  | 0, _ => []
  | fuel + 1, n => if n < 10 then [digit n] else decimalFrom fuel (n / 10) ++ [digit (n % 10)]

/-- `std::to_string` of a `uint32_t`, which has ten digits at most. -/
def toString (n : ℕ) : Text := decimalFrom 10 n

def flagOf (b : Bool) : Text := text (if b then "1" else "0")

variable (s : StoredSession)

def fieldsOf : List Text :=
  [toString s.id, fieldOf s.account, toString s.uid, flagOf s.attached, flagOf s.gdm, fieldOf s.loginSession,
    fieldOf s.unit, hexOf s.token]

def lineOf : Text := [space].intercalate (fieldsOf s)

def header : Text := text "# farland sessions; farlandd rewrites this file, do not edit\n"

def encodeSessions (sessions : List StoredSession) : Text :=
  header ++ sessions.flatMap fun s => if s.id = 0 ∨ s.account = [] then [] else lineOf s ++ [newline]

/-! ### Reading -/

/-- `isspace` in the classic locale. -/
def isSpace (c : UInt8) : Bool := (0x09 ≤ c && c ≤ 0x0D) || c == 0x20

def nibble (c : UInt8) : Option ℕ :=
  if 0x30 ≤ c ∧ c ≤ 0x39 then some (c.toNat - 0x30)
  else if 0x61 ≤ c ∧ c ≤ 0x66 then some (c.toNat - 0x61 + 10)
  else none

def bytesFromHex : Text → Option (List UInt8)
  | high :: low :: rest => do
    let high ← nibble high
    let low ← nibble low
    let bytes ← bytesFromHex rest
    pure (UInt8.ofNat (high * 16 + low) :: bytes)
  | _ => some []

def tokenFromHex (field : Text) : Option Token := do
  if field.length ≠ 32 * 2 then none
  let bytes ← bytesFromHex field
  if h : bytes.length = 32 then some ⟨bytes, h⟩ else none

def valueOf (field : Text) : Text := if field = noField then [] else field

def decimalValue : ℕ → Text → Option ℕ
  | value, [] => some value
  | value, c :: rest => if 0x30 ≤ c ∧ c ≤ 0x39 then decimalValue (value * 10 + (c.toNat - 0x30)) rest else none

/-- `std::from_chars` into a `uint32_t`, over the whole field. -/
def numberOf (field : Text) : Option ℕ :=
  if field = [] then none else (decimalValue 0 field).filter (· < 2 ^ 32)

/-- The lines that `getline` gives, behind what there is of the first. -/
def linesFrom (line : Text) : Text → List Text
  | [] => if line = [] then [] else [line]
  | c :: rest => if c = newline then line :: linesFrom [] rest else linesFrom (line ++ [c]) rest

/-- What `>>` gives, field by field, behind what there is of the first. -/
def wordsFrom (word : Text) : Text → List Text
  | [] => if word = [] then [] else [word]
  | c :: rest =>
    if isSpace c = true then (if word = [] then wordsFrom [] rest else word :: wordsFrom [] rest)
    else wordsFrom (word ++ [c]) rest

/-- One line, unless it is ignored. -/
def decodeLine (line : Text) : Option StoredSession :=
  if line.head? = none ∨ line.head? = some 0x23 then none
  else
    match wordsFrom [] line with
    | [id, account, uid, attached, gdm, loginSession, unit, token] => do
      let id ← numberOf id
      let uid ← numberOf uid
      let token ← tokenFromHex token
      if id = 0 ∨ valueOf account = [] then none
      else
        pure { id, account := valueOf account, uid, attached := attached == text "1", gdm := gdm == text "1",
               loginSession := valueOf loginSession, unit := valueOf unit, token }
    | _ => none

def decodeSessions (table : Text) : List StoredSession := (linesFrom [] table).filterMap decodeLine

/-! ### Lines -/

theorem linesFrom_append {l : Text} (rest : Text) : ∀ {line : Text}, newline ∉ l →
    linesFrom line (l ++ newline :: rest) = (line ++ l) :: linesFrom [] rest := by
  induction l with
  | nil => simp [linesFrom]
  | cons c l ih =>
    intro line h
    obtain ⟨hc, hl⟩ := not_or.mp (mt mem_cons.mpr h)
    rw [cons_append, linesFrom, if_neg (Ne.symm hc), ih hl, append_assoc, singleton_append]

/-! ### Fields -/

/-- A field that `>>` takes whole. -/
def Word (w : Text) : Prop := w ≠ [] ∧ ∀ c ∈ w, isSpace c = false

theorem wordsFrom_word (rest : Text) : ∀ {w word : Text}, (∀ c ∈ w, isSpace c = false) →
    wordsFrom word (w ++ rest) = wordsFrom (word ++ w) rest
  | [], word, _ => by simp
  | c :: w, word, h => by
    obtain ⟨hc, hw⟩ := forall_mem_cons.mp h
    rw [cons_append, wordsFrom, if_neg (by simp [hc]), wordsFrom_word rest hw, append_assoc, singleton_append]

/-- Fields behind each other are found again. -/
theorem wordsFrom_intercalate : ∀ {ws : List Text}, (∀ w ∈ ws, Word w) → wordsFrom [] ([space].intercalate ws) = ws
  | [], _ => rfl
  | [w], h => by
    obtain ⟨hne, hw⟩ := h w mem_cons_self
    have hword : wordsFrom [] (w ++ []) = wordsFrom ([] ++ w) [] := wordsFrom_word [] hw
    rw [append_nil] at hword
    simp [List.intercalate, hword, wordsFrom, hne]
  | w :: w' :: ws, h => by
    obtain ⟨hne, hw⟩ := h w mem_cons_self
    have ih := wordsFrom_intercalate fun x hx => h x (mem_cons_of_mem _ hx)
    have hjoin : [space].intercalate (w :: w' :: ws) = w ++ space :: [space].intercalate (w' :: ws) := by
      simp
    rw [hjoin, wordsFrom_word _ hw, nil_append, wordsFrom, if_pos (by decide), if_neg hne, ih]

theorem mem_wordsFrom {w : Text} : ∀ {l word : Text}, (∀ c ∈ word, isSpace c = false) → w ∈ wordsFrom word l →
    ∀ c ∈ w, isSpace c = false
  | [], word, hword, hw => by
    unfold wordsFrom at hw
    split_ifs at hw
    · cases hw
    · rwa [mem_singleton.mp hw]
  | c :: l, word, hword, hw => by
    unfold wordsFrom at hw
    split_ifs at hw with hc hne
    · exact mem_wordsFrom (by simp) hw
    · rcases mem_cons.mp hw with rfl | hw
      · exact hword
      · exact mem_wordsFrom (by simp) hw
    · refine mem_wordsFrom (fun x hx => ?_) hw
      rcases mem_append.mp hx with hx | hx
      · exact hword x hx
      · rw [mem_singleton.mp hx]
        simpa using hc

/-- A string that is written as it is and read as it was. -/
def Plain (value : Text) : Prop := value ≠ noField ∧ ∀ c ∈ value, isSpace c = false

theorem breaksFormat_isSpace {c : UInt8} (h : breaksFormat c = true) : isSpace c = true := by
  simp only [breaksFormat, Bool.or_eq_true, beq_iff_eq] at h
  rcases h with ((rfl | rfl) | rfl) | rfl <;> rfl

variable {value : Text}

theorem Plain.fieldOf (h : Plain value) (hne : value ≠ []) : fieldOf value = value := by
  unfold SessionStore.fieldOf
  rw [if_neg hne, if_neg]
  intro hany
  obtain ⟨c, hc, hb⟩ := any_eq_true.mp hany
  have hspace := h.2 c hc
  rw [breaksFormat_isSpace hb] at hspace
  cases hspace

/-- Unless it is `Plain` and left as it is, a string is not found where it was. -/
theorem fieldOf_word (h : fieldOf value = value → Plain value) : Word (fieldOf value) := by
  by_cases hsame : fieldOf value = value
  · rw [hsame]
    refine ⟨?_, (h hsame).2⟩
    rintro rfl
    exact absurd hsame (by decide)
  · have hnone : fieldOf value = noField := by
      unfold fieldOf at hsame ⊢
      split_ifs at hsame ⊢
      · rfl
      · rfl
      · exact absurd rfl hsame
    rw [hnone]
    exact ⟨by decide, forall_of_all (by decide)⟩

/-! ### Numbers and tokens -/

theorem digit_facts : ∀ n < 16, isSpace (digit n) = false ∧ nibble (digit n) = some n ∧
    (n < 10 → 0x30 ≤ digit n ∧ digit n ≤ 0x39 ∧ (digit n).toNat - 0x30 = n) := by decide

theorem decimalValue_append (xs ys : Text) : ∀ v,
    decimalValue v (xs ++ ys) = (decimalValue v xs).bind fun v' => decimalValue v' ys := by
  induction xs with
  | nil => simp [decimalValue]
  | cons c xs ih =>
    intro v
    rw [cons_append, decimalValue, decimalValue]
    split_ifs
    · exact ih _
    · rfl

theorem decimalValue_digit {v n : ℕ} (h : n < 10) : decimalValue v [digit n] = some (v * 10 + n) := by
  obtain ⟨hlo, hhi, hvalue⟩ := (digit_facts n (by omega)).2.2 h
  rw [decimalValue, if_pos ⟨hlo, hhi⟩, hvalue, decimalValue]

theorem decimalFrom_digits : ∀ {fuel n : ℕ}, ∀ c ∈ decimalFrom fuel n, 0x30 ≤ c ∧ c ≤ 0x39
  | 0, _ => by simp [decimalFrom]
  | fuel + 1, n => by
    have hdigit : ∀ d < 10, 0x30 ≤ digit d ∧ digit d ≤ 0x39 := by decide
    unfold decimalFrom
    split_ifs with h
    · simpa using hdigit n h
    · intro c hc
      rcases mem_append.mp hc with hc | hc
      · exact decimalFrom_digits c hc
      · rw [mem_singleton.mp hc]
        exact hdigit (n % 10) (by omega)

theorem isSpace_digit {c : UInt8} (h : 0x30 ≤ c) : isSpace c = false := by
  have hc : 0x30 ≤ c.toNat := UInt8.le_iff_toNat_le.mp h
  have hhigh : ¬ c ≤ 0x0D := fun hle => by
    have hle' : c.toNat ≤ 0x0D := UInt8.le_iff_toNat_le.mp hle
    omega
  have hspace : c ≠ 0x20 := by
    rintro rfl
    exact absurd hc (by decide)
  simp [isSpace, hhigh, hspace]

theorem decimalValue_decimalFrom : ∀ {fuel n : ℕ}, n < 10 ^ (fuel + 1) →
    decimalFrom (fuel + 1) n ≠ [] ∧ decimalValue 0 (decimalFrom (fuel + 1) n) = some n
  | 0, n, h => by
    have hn : n < 10 := by omega
    rw [decimalFrom, if_pos hn, decimalValue_digit hn, Nat.zero_mul, Nat.zero_add]
    exact ⟨by simp, rfl⟩
  | fuel + 1, n, h => by
    unfold decimalFrom
    split_ifs with hn
    · rw [decimalValue_digit hn, Nat.zero_mul, Nat.zero_add]
      exact ⟨by simp, rfl⟩
    · have ih := (@decimalValue_decimalFrom fuel (n / 10) (by omega)).2
      refine ⟨by simp, ?_⟩
      rw [decimalValue_append, ih, bind_some, decimalValue_digit (by omega)]
      congr 1
      omega

theorem toString_word {n : ℕ} (h : n < 2 ^ 32) : Word (toString n) :=
  ⟨(@decimalValue_decimalFrom 9 n (by omega)).1, fun c hc => isSpace_digit (decimalFrom_digits c hc).1⟩

theorem numberOf_toString {n : ℕ} (h : n < 2 ^ 32) : numberOf (toString n) = some n := by
  obtain ⟨hne, hvalue⟩ := @decimalValue_decimalFrom 9 n (by omega)
  unfold numberOf toString
  rw [if_neg hne, hvalue]
  simpa using h

theorem bytesFromHex_hex : ∀ bytes : List UInt8,
    bytesFromHex (bytes.flatMap fun b => [digit (b.toNat / 16), digit (b.toNat % 16)]) = some bytes
  | [] => rfl
  | b :: bytes => by
    have hb := b.toNat_lt
    have hhigh := (digit_facts (b.toNat / 16) (by omega)).2.1
    have hlow := (digit_facts (b.toNat % 16) (by omega)).2.1
    have hsum : b.toNat / 16 * 16 + b.toNat % 16 = b.toNat := by omega
    rw [flatMap_cons, cons_append, cons_append, nil_append, bytesFromHex, hhigh, hlow, bytesFromHex_hex bytes]
    simp only [bind_eq_bind, bind_some, Option.pure_def, hsum, UInt8.ofNat_toNat]

theorem hexOf_word (token : Token) : Word (hexOf token) := by
  constructor
  · intro h
    have hlength := congrArg List.length h
    simp [hexOf] at hlength
  · intro c hc
    obtain ⟨b, -, hc⟩ := mem_flatMap.mp hc
    have hb := b.toNat_lt
    rcases mem_pair.mp hc with rfl | rfl
    · exact (digit_facts _ (by omega)).1
    · exact (digit_facts _ (by omega)).1

theorem tokenFromHex_hexOf (token : Token) : tokenFromHex (hexOf token) = some token := by
  unfold tokenFromHex
  simp [hexOf, bytesFromHex_hex]

/-! ### One session -/

/-- The string that the table gives back: the empty one, where another was written for it. -/
def asRead (value : Text) : Text := if fieldOf value = value then value else []

def asReadSession : StoredSession :=
  { s with account := asRead s.account, loginSession := asRead s.loginSession, unit := asRead s.unit }

theorem valueOf_fieldOf (h : fieldOf value = value → Plain value) : valueOf (fieldOf value) = asRead value := by
  unfold asRead
  split_ifs with hsame
  · rw [hsame, valueOf, if_neg (h hsame).1]
  · unfold fieldOf at hsame ⊢
    split_ifs at hsame ⊢
    · rfl
    · rfl
    · exact absurd rfl hsame

/-- A string that came back was found in a field. -/
theorem plain_of_read {w : Text} (hw : ∀ c ∈ w, isSpace c = false) (hread : valueOf w = asRead value)
    (hsame : fieldOf value = value) : Plain value := by
  have hne : value ≠ [] := by
    rintro rfl
    exact absurd hsame (by decide)
  rw [asRead, valueOf] at hread
  split_ifs at hread with hnone
  · exact absurd hread.symm hne
  · exact hread ▸ ⟨hnone, hw⟩

/-- What a session needs to be found again in its line. -/
structure Survives (s : StoredSession) : Prop where
  account : Plain s.account
  loginSession : fieldOf s.loginSession = s.loginSession → Plain s.loginSession
  unit : fieldOf s.unit = s.unit → Plain s.unit

/-- What the type of a session and the writer ask for. -/
structure Storable (s : StoredSession) : Prop where
  id : s.id ≠ 0 ∧ s.id < 2 ^ 32
  account : s.account ≠ []
  uid : s.uid < 2 ^ 32

theorem lineOf_eq : ∃ rest, lineOf s = toString s.id ++ space :: rest :=
  ⟨_, by simp only [lineOf, fieldsOf, List.intercalate, List.intersperse, flatten_cons, singleton_append]; rfl⟩

variable {s : StoredSession}

theorem lineOf_head (h : Storable s) : ¬ ((lineOf s).head? = none ∨ (lineOf s).head? = some 0x23) := by
  obtain ⟨rest, hline⟩ := lineOf_eq s
  obtain ⟨c, cs, hid⟩ := exists_cons_of_ne_nil (toString_word h.id.2).1
  have hc : 0x30 ≤ c := (decimalFrom_digits c (by
    change c ∈ toString s.id
    rw [hid]
    exact mem_cons_self)).1
  rw [hline, hid]
  simp only [cons_append, head?_cons, reduceCtorEq, false_or, Option.some.injEq]
  rintro rfl
  exact absurd hc (by decide)

/-- Behind a line that was not ignored there are eight fields. -/
theorem decodeLine_some {line : Text} (h : decodeLine line = some s) :
    ∃ account loginSession unit : Text, (∀ w ∈ [account, loginSession, unit], ∀ c ∈ w, isSpace c = false) ∧
      valueOf account ≠ [] ∧ valueOf account = s.account ∧ valueOf loginSession = s.loginSession ∧
      valueOf unit = s.unit := by
  unfold decodeLine at h
  split_ifs at h
  split at h
  · next id account uid attached gdm loginSession unit token hwords =>
    simp only [bind_eq_bind, bind_eq_some_iff] at h
    obtain ⟨_, -, _, -, _, -, h⟩ := h
    split_ifs at h with hempty
    cases h
    refine ⟨account, loginSession, unit, fun w hw => ?_, (not_or.mp hempty).2, rfl, rfl, rfl⟩
    apply @mem_wordsFrom w line []
    · simp
    · rw [hwords]
      simp only [mem_cons] at hw ⊢
      tauto
  · cases h

theorem decodeLine_iff (h : Storable s) : decodeLine (lineOf s) = some (asReadSession s) ↔ Survives s := by
  constructor
  · intro hline
    obtain ⟨account, loginSession, unit, hwords, hne, haccount, hlogin, hunit⟩ := decodeLine_some hline
    have hsame : fieldOf s.account = s.account := by
      by_contra hsame
      rw [haccount] at hne
      exact hne (if_neg hsame)
    exact ⟨plain_of_read (hwords account (by simp)) haccount hsame,
      plain_of_read (hwords loginSession (by simp)) hlogin, plain_of_read (hwords unit (by simp)) hunit⟩
  · intro hs
    have hwords : wordsFrom [] (lineOf s) = fieldsOf s := by
      apply wordsFrom_intercalate
      have hflag : ∀ b, Word (flagOf b) := fun b => ⟨by cases b <;> decide, forall_of_all (by cases b <;> decide)⟩
      simp only [fieldsOf, forall_mem_cons]
      exact ⟨toString_word h.id.2, fieldOf_word fun _ => hs.account, toString_word h.uid, hflag _, hflag _,
        fieldOf_word hs.loginSession, fieldOf_word hs.unit, hexOf_word _, by simp⟩
    have haccount := hs.account.fieldOf h.account
    have hone : ∀ b, (flagOf b == text "1") = b := by decide
    unfold decodeLine
    rw [if_neg (lineOf_head h), hwords]
    simp only [fieldsOf, numberOf_toString h.id.2, numberOf_toString h.uid, tokenFromHex_hexOf,
      valueOf_fieldOf fun _ => hs.account, valueOf_fieldOf hs.loginSession, valueOf_fieldOf hs.unit, hone]
    have hkept : asRead s.account = s.account := if_pos haccount
    simp [hkept, h.id.1, h.account, asReadSession]

/-! ### The table -/

theorem newline_lineOf (s : StoredSession) : newline ∉ lineOf s := by
  have hfield : ∀ value, newline ∉ fieldOf value := by
    intro value
    unfold fieldOf
    split_ifs with hnil hany
    · decide
    · decide
    · exact fun hmem => hany (any_eq_true.mpr ⟨newline, hmem, rfl⟩)
  have hnumber : ∀ n, newline ∉ toString n := fun n hmem => absurd (decimalFrom_digits _ hmem).1 (by decide)
  have hhex : newline ∉ hexOf s.token := fun hmem => absurd ((hexOf_word s.token).2 _ hmem) (by decide)
  have hflag : ∀ b, newline ∉ flagOf b := by decide
  have hspace : newline ≠ space := by decide
  simp [lineOf, fieldsOf, hfield, hnumber, hhex, hflag, hspace]

/-- **Each line is read by itself.** -/
theorem decodeSessions_encode (sessions : List StoredSession) : decodeSessions (encodeSessions sessions) =
    sessions.filterMap fun s => if s.id = 0 ∨ s.account = [] then none else decodeLine (lineOf s) := by
  have hheader : ∃ l, header = l ++ [newline] ∧ newline ∉ l ∧ decodeLine l = none :=
    ⟨header.dropLast, by decide, by decide, by decide⟩
  obtain ⟨l, hl, hnew, hnone⟩ := hheader
  unfold decodeSessions encodeSessions
  rw [hl, append_assoc, singleton_append, linesFrom_append _ hnew, nil_append, filterMap_cons_none hnone]
  induction sessions with
  | nil => rfl
  | cons s sessions ih =>
    rw [flatMap_cons, filterMap_cons]
    split_ifs with hs
    · exact ih
    · rw [append_assoc, singleton_append, linesFrom_append _ (newline_lineOf s), nil_append, filterMap_cons, ih]

theorem filterMap_eq_map_iff {α β : Type} {f : α → Option β} {g : α → β} {l : List α} :
    l.filterMap f = l.map g ↔ ∀ a ∈ l, f a = some (g a) := by
  induction l with
  | nil => simp
  | cons a l ih =>
    rw [forall_mem_cons, ← ih, filterMap_cons]
    cases h : f a with
    | none =>
      refine ⟨fun heq => ?_, fun ⟨hfalse, _⟩ => by cases hfalse⟩
      have hlength : (l.filterMap f).length = (g a :: l.map g).length := congrArg List.length heq
      have hle := length_filterMap_le f l
      rw [hlength] at hle
      simp at hle
    | some b => simp

/-- **When the table is the one that was written**: for sessions whose account and whose other strings, where they
are written as they are, hold no space character and are not the sign for the empty string. In any case no line
changes or hides another. -/
theorem sessions_survive_iff {sessions : List StoredSession} (h : ∀ s ∈ sessions, Storable s) :
    (decodeSessions (encodeSessions sessions) = sessions.map asReadSession ↔ ∀ s ∈ sessions, Survives s) ∧
      decodeSessions (encodeSessions sessions) = sessions.flatMap fun s => decodeSessions (encodeSessions [s]) := by
  constructor
  · rw [decodeSessions_encode, filterMap_eq_map_iff]
    refine forall₂_congr fun s hs => ?_
    rw [if_neg (not_or.mpr ⟨(h s hs).id.1, (h s hs).account⟩), decodeLine_iff (h s hs)]
  · rw [decodeSessions_encode, filterMap_eq_flatMap_toList]
    refine flatMap_congr fun s _ => ?_
    rw [decodeSessions_encode, filterMap_eq_flatMap_toList, flatMap_cons, flatMap_nil, append_nil]

def aliceSession : StoredSession := { id := 1, account := text "alice", uid := 1000, loginSession := text "c2" }

/-- Its login session cannot be written. -/
def bobSession : StoredSession :=
  { id := 2, account := text "bob", uid := 1001, attached := true, gdm := true, loginSession := text "c3\nc4",
    unit := text "farland@2.service" }

theorem sessions_survive_iff_replaced :
    fieldOf bobSession.loginSession = text "-" ∧
      decodeSessions (encodeSessions [aliceSession, bobSession]) =
        [aliceSession, { bobSession with loginSession := [] }] := by
  refine ⟨by decide, (sessions_survive_iff fun s hs => ?_).1.mpr fun s hs => ?_⟩
  · obtain rfl | rfl : s = aliceSession ∨ s = bobSession := by simpa using hs
    · exact ⟨by decide, by decide, by decide⟩
    · exact ⟨by decide, by decide, by decide⟩
  · obtain rfl | rfl : s = aliceSession ∨ s = bobSession := by simpa using hs
    · have haccount : Plain (text "alice") := ⟨by decide, forall_of_all (by decide)⟩
      have hlogin : Plain (text "c2") := ⟨by decide, forall_of_all (by decide)⟩
      exact ⟨haccount, fun _ => hlogin, fun hsame => absurd hsame (by decide)⟩
    · have haccount : Plain (text "bob") := ⟨by decide, forall_of_all (by decide)⟩
      have hunit : Plain (text "farland@2.service") := ⟨by decide, forall_of_all (by decide)⟩
      exact ⟨haccount, fun hsame => absurd hsame (by decide), fun _ => hunit⟩

/-- A vertical tab ends a field for the reader, and a session with one is lost. -/
theorem vertical_tab_hides : ¬ ∀ sessions : List StoredSession, (∀ s ∈ sessions, Storable s) →
    decodeSessions (encodeSessions sessions) = sessions.map asReadSession := by
  intro hall
  have hlost := congrArg List.length (hall [{ aliceSession with unit := text "gnome" ++ [0x0B] ++ text "1" }] (by
    intro s hs
    cases mem_singleton.mp hs
    exact ⟨by decide, by decide, by decide⟩))
  exact absurd hlost (by decide)

end SessionStore
end Daemon
end Farland
