/-
# The credential file

`CredentialStore::parse` and `serialize`, and the three ways to change a store.
A line is `user:domain:hash`, with a local account behind it if there is one;
`#` starts a comment, and the reader takes blanks off both ends of a line.
`valid_name` looks for neither: a name with `#` in it, or a user that starts
with a blank, is written and not read (`name_with_comment`).

Key theorems: `parseLine_line`, **`run_readable`**.
-/
import Mathlib.Data.List.DropRight
import Farland.Daemon.Preauth
import Farland.Daemon.SessionStore

namespace Farland
namespace Daemon

open List CredentialStore

/-- The entry for exactly this user and domain. -/
def CredentialEntry.isFor (e : CredentialEntry) (user domain : Text) : Bool :=
  iequals e.user user && iequals e.domain domain

namespace CredentialStore

open SessionStore (digit newline space)

def colon : UInt8 := 0x3A
def comment : UInt8 := 0x23
def maxNameSize : ℕ := 256

def isControl (c : UInt8) : Bool := c < 0x20 || c == 0x7F

def validName (name : Text) (allowEmpty : Bool) : Bool :=
  if name = [] then allowEmpty
  else name.length ≤ maxNameSize && name.all fun c => !(c == colon || isControl c)

def validLocalAccount (name : Text) : Bool :=
  name ≠ [] && name.length ≤ maxNameSize && name.head? ≠ some 0x2D &&
    name.all fun c => !(c == colon || c == 0x2F || c == space || isControl c)

/-! ### Reading -/

/-- What is before the first `c`, and what is behind it if there is one. -/
def cut (c : UInt8) : Text → Text × Option Text
  | [] => ([], none)
  | b :: rest => if b = c then ([], some rest) else (b :: (cut c rest).1, (cut c rest).2)

def isBlank (c : UInt8) : Bool := c == space || c == 0x09 || c == 0x0D

def trim (line : Text) : Text := (line.dropWhile isBlank).rdropWhile isBlank

/-- `hex_value` -/
def hexValue (c : UInt8) : Option ℕ :=
  if 0x30 ≤ c ∧ c ≤ 0x39 then some (c.toNat - 0x30)
  else if 0x61 ≤ c ∧ c ≤ 0x66 then some (c.toNat - 0x61 + 10)
  else if 0x41 ≤ c ∧ c ≤ 0x46 then some (c.toNat - 0x41 + 10)
  else none

/-- `from_hex`, behind the first half of a byte; the reader of a line does not
look at why it fails. -/
def fromHex : Option ℕ → Text → Option (List UInt8)
  | high, [] => if high.isSome = true then none else some []
  | high, c :: rest =>
    if isBlank c || c == newline then fromHex high rest
    else match hexValue c, high with
      | none, _ => none
      | some nibble, none => fromHex (some nibble) rest
      | some nibble, some high => (fromHex none rest).map (UInt8.ofNat (high <<< 4 ||| nibble) :: ·)

/-- One line of the file, unless there is nothing on it. -/
def parseLine (lineNo : ℕ) (line : Text) : Result (Option CredentialEntry) :=
  let line := trim (cut comment line).1
  if line = [] then .ok none
  else match cut colon line with
    | (_, none) => fail .invalidValue "credential line is not user:domain:hash" lineNo
    | (user, some rest) => match cut colon rest with
      | (_, none) => fail .invalidValue "credential line is not user:domain:hash" lineNo
      | (domain, some rest) =>
        if validName user false = false ∨ validName domain true = false then
          fail .invalidValue "invalid user or domain name" lineNo
        else if (cut colon rest).2.any (fun account => !validLocalAccount account) = true then
          fail .invalidValue "invalid local account name" lineNo
        else match fromHex none (cut colon rest).1 with
          | none => fail .invalidValue "NT hash is not 32 hexadecimal digits" lineNo
          | some digits =>
            if h : digits.length = 16 then
              .ok (some { user, domain, hash := ⟨digits, h⟩, localAccount := (cut colon rest).2.getD [] })
            else fail .invalidValue "NT hash is not 32 hexadecimal digits" lineNo

/-- The lines, behind what there is of the first. -/
def linesOf (line : Text) : Text → List Text
  | [] => [line]
  | c :: rest => if c = newline then line :: linesOf [] rest else linesOf (line ++ [c]) rest

def parseLines : ℕ → CredentialStore → List Text → Result CredentialStore
  | _, store, [] => .ok store
  | lineNo, store, line :: rest =>
    match parseLine lineNo line with
    | .error e => .error e
    | .ok none => parseLines (lineNo + 1) store rest
    | .ok (some entry) =>
      if (store.entries.any fun e => e.isFor entry.user entry.domain) = true then
        fail .invalidValue "duplicate credential entry" lineNo
      else parseLines (lineNo + 1) ⟨store.entries ++ [entry]⟩ rest

def parse (file : Text) : Result CredentialStore := parseLines 1 ⟨[]⟩ (linesOf [] file)

/-! ### Writing -/

def toHex (data : List UInt8) : Text :=
  [space].intercalate (data.map fun b => [digit (b.toNat / 16), digit (b.toNat % 16)])

def digitsOf (hash : NtHash) : Text := (toHex hash.toList).filter (· ≠ space)

/-- A line, without its end. -/
def lineOf (e : CredentialEntry) : Text :=
  if e.localAccount = [] then e.user ++ colon :: (e.domain ++ colon :: digitsOf e.hash)
  else e.user ++ colon :: (e.domain ++ colon :: (digitsOf e.hash ++ colon :: e.localAccount))

def header : Text :=
  text "# farland NLA users: user:domain:NT hash[:local account] (an empty domain matches any)"

variable (store : CredentialStore)

def serialize : Text :=
  header ++ newline :: store.entries.flatMap fun e => lineOf e ++ [newline]

/-! ### Changes -/

/-- The entries with `f` on the first one for `user` and `domain`, if there is one. -/
def change (user domain : Text) (f : CredentialEntry → CredentialEntry) :
    List CredentialEntry → Option (List CredentialEntry)
  | [] => none
  | e :: rest => if e.isFor user domain = true then some (f e :: rest) else (change user domain f rest).map (e :: ·)

def set (user domain : Text) (hash : NtHash) : CredentialStore :=
  match change user domain (fun e => { e with hash }) store.entries with
  | some entries => ⟨entries⟩
  | none => ⟨store.entries ++ [{ user, domain, hash }]⟩

def setLocalAccount (user domain account : Text) : CredentialStore × Bool :=
  match change user domain (fun e => { e with localAccount := account }) store.entries with
  | some entries => (⟨entries⟩, true)
  | none => (store, false)

def remove (user domain : Text) : CredentialStore × Bool :=
  (⟨store.entries.eraseP fun e => e.isFor user domain⟩, store.entries.any fun e => e.isFor user domain)

/-- A call that changes the store. -/
inductive Edit where
  | set (user domain : Text) (hash : NtHash)
  | setLocalAccount (user domain account : Text)
  | remove (user domain : Text)

/-- What the calls assert. -/
def Edit.Allowed : Edit → Prop
  | .set user domain _ => validName user false = true ∧ validName domain true = true
  | .setLocalAccount _ _ account => account = [] ∨ validLocalAccount account = true
  | .remove _ _ => True

instance : DecidablePred Edit.Allowed
  | .set _ _ _ => inferInstanceAs (Decidable (_ ∧ _))
  | .setLocalAccount _ _ _ => inferInstanceAs (Decidable (_ ∨ _))
  | .remove _ _ => inferInstanceAs (Decidable True)

def apply : Edit → CredentialStore
  | .set user domain hash => store.set user domain hash
  | .setLocalAccount user domain account => (store.setLocalAccount user domain account).1
  | .remove user domain => (store.remove user domain).1

def run (edits : List Edit) : CredentialStore := edits.foldl apply store

/-! ### Characters -/

variable {c : UInt8} {name : Text} {e : CredentialEntry} {store : CredentialStore}

theorem ne_of_not_control (h : isControl c = false) : c ≠ newline ∧ c ≠ 0x09 ∧ c ≠ 0x0D := by
  refine ⟨?_, ?_, ?_⟩
  all_goals
    rintro rfl
    exact absurd h (by decide)

theorem validName_mem {allowEmpty : Bool} (h : validName name allowEmpty = true) (hc : c ∈ name) :
    c ≠ colon ∧ isControl c = false := by
  rw [validName, if_neg (ne_nil_of_mem hc)] at h
  simp only [Bool.and_eq_true, all_eq_true] at h
  simpa using h.2 c hc

theorem validLocalAccount_mem (h : validLocalAccount name = true) (hc : c ∈ name) :
    c ≠ colon ∧ c ≠ space ∧ isControl c = false := by
  simp only [validLocalAccount, Bool.and_eq_true, all_eq_true] at h
  have hall := h.2 c hc
  simp only [Bool.not_eq_true', Bool.or_eq_false_iff, beq_eq_false_iff_ne] at hall
  exact ⟨hall.1.1.1, hall.1.2, hall.2⟩

theorem digit_hex : ∀ n < 16, hexValue (digit n) = some n ∧ (isBlank (digit n) || digit n == newline) = false ∧
    digit n ≠ space ∧ digit n ≠ colon ∧ digit n ≠ comment ∧ digit n ≠ newline ∧ isBlank (digit n) = false := by decide

theorem high_or_low (n : ℕ) : (n / 16) <<< 4 ||| n % 16 = n := by
  rw [← Nat.shiftLeft_add_eq_or_of_lt (by omega : n % 16 < 2 ^ 4)]
  omega

/-! ### Hash digits -/

def pairOf (b : UInt8) : Text := [digit (b.toNat / 16), digit (b.toNat % 16)]

theorem filter_pairOf (b : UInt8) : (pairOf b).filter (· ≠ space) = pairOf b := by
  have hb := b.toNat_lt
  have hhigh := (digit_hex (b.toNat / 16) (by omega)).2.2.1
  have hlow := (digit_hex (b.toNat % 16) (by omega)).2.2.1
  simp [pairOf, hhigh, hlow]

theorem filter_toHex : ∀ data : List UInt8, (toHex data).filter (· ≠ space) = data.flatMap pairOf
  | [] => rfl
  | [b] => by
    have hpair : toHex [b] = pairOf b := append_nil _
    rw [hpair, filter_pairOf]
    simp
  | b :: b' :: data => by
    have hjoin : toHex (b :: b' :: data) = pairOf b ++ space :: toHex (b' :: data) := by
      simp [toHex, pairOf]
    rw [hjoin, filter_append, filter_pairOf, filter_cons_of_neg (by simp), filter_toHex (b' :: data),
      flatMap_cons, flatMap_cons, flatMap_cons]

theorem fromHex_pairs : ∀ data : List UInt8, fromHex none (data.flatMap pairOf) = some data
  | [] => rfl
  | b :: data => by
    have hb := b.toNat_lt
    obtain ⟨hhigh, hspace, -⟩ := digit_hex (b.toNat / 16) (by omega)
    obtain ⟨hlow, hspace', -⟩ := digit_hex (b.toNat % 16) (by omega)
    have hsum : UInt8.ofNat ((b.toNat / 16) <<< 4 ||| b.toNat % 16) = b := by
      rw [high_or_low, UInt8.ofNat_toNat]
    simp [pairOf, fromHex, hhigh, hspace, hlow, hspace', fromHex_pairs data, hsum]

theorem mem_digitsOf {hash : NtHash} (hc : c ∈ digitsOf hash) :
    c ≠ colon ∧ c ≠ comment ∧ c ≠ newline ∧ isBlank c = false := by
  rw [digitsOf, filter_toHex] at hc
  obtain ⟨b, -, hc⟩ := mem_flatMap.mp hc
  have hb := b.toNat_lt
  rcases mem_pair.mp hc with rfl | rfl
  all_goals exact (digit_hex _ (by omega)).2.2.2

theorem digitsOf_ne_nil (hash : NtHash) : digitsOf hash ≠ [] := by
  intro h
  have hlength := congrArg List.length h
  rw [digitsOf, filter_toHex] at hlength
  simp [pairOf] at hlength

/-! ### Lines -/

theorem cut_append {l : Text} (rest : Text) (h : c ∉ l) : cut c (l ++ c :: rest) = (l, some rest) := by
  induction l with
  | nil => simp [cut]
  | cons b l ih =>
    obtain ⟨hb, hl⟩ := not_or.mp (mt mem_cons.mpr h)
    rw [cons_append, cut, if_neg (Ne.symm hb), ih hl]

theorem cut_of_not_mem {l : Text} (h : c ∉ l) : cut c l = (l, none) := by
  induction l with
  | nil => rfl
  | cons b l ih =>
    obtain ⟨hb, hl⟩ := not_or.mp (mt mem_cons.mpr h)
    rw [cut, if_neg (Ne.symm hb), ih hl]

/-- Nothing is lost. -/
theorem cut_spec (c : UInt8) : ∀ l : Text, c ∉ (cut c l).1 ∧ l = (cut c l).1 ++ ((cut c l).2.map (c :: ·)).getD []
  | [] => ⟨not_mem_nil, rfl⟩
  | b :: l => by
    obtain ⟨hnot, heq⟩ := cut_spec c l
    unfold cut
    split_ifs with hb
    · exact ⟨not_mem_nil, by rw [hb]; rfl⟩
    · exact ⟨by simp [Ne.symm hb, hnot], congrArg (b :: ·) heq⟩

theorem trim_append {front back : Text} (hne : back ≠ []) (hback : ∀ c ∈ back, isBlank c = false)
    (hhead : ∀ c ∈ (front ++ back).head?, isBlank c = false) : trim (front ++ back) = front ++ back := by
  have hleft : (front ++ back).dropWhile isBlank = front ++ back := by
    cases hl : front ++ back with
    | nil => rfl
    | cons c l =>
      rw [hl] at hhead
      exact dropWhile_cons_of_neg (by simp [hhead c rfl])
  rw [trim, hleft, rdropWhile_eq_self_iff]
  intro hl
  rw [getLast_append_of_ne_nil _ hne]
  simp [hback _ (getLast_mem hne)]

/-- What is left of a line is part of it, and starts with no blank. -/
theorem trim_spec (l : Text) : (∀ c ∈ trim l, c ∈ l) ∧ ∀ c ∈ (trim l).head?, isBlank c = false := by
  have hpre : trim l <+: l.dropWhile isBlank := rdropWhile_prefix _ _
  refine ⟨fun c hc => (dropWhile_sublist _).subset (hpre.subset hc), fun c hc => ?_⟩
  obtain ⟨rest, hrest⟩ := hpre
  have hhead : (l.dropWhile isBlank).head? = some c := by
    rw [← hrest, head?_append, Option.mem_def.mp hc]
    rfl
  have hnot := head?_dropWhile_not isBlank l
  rw [hhead] at hnot
  simpa using hnot

/-! ### Entries -/

/-- What is asserted of an entry's names. -/
structure Stored (e : CredentialEntry) : Prop where
  user : validName e.user false = true
  domain : validName e.domain true = true
  localAccount : e.localAccount = [] ∨ validLocalAccount e.localAccount = true

/-- What the reader of a line asks for besides. -/
structure Clean (e : CredentialEntry) : Prop where
  user : comment ∉ e.user
  domain : comment ∉ e.domain
  localAccount : comment ∉ e.localAccount
  start : ∀ c ∈ e.user.head?, isBlank c = false

theorem Stored.account_mem (h : Stored e) (hc : c ∈ e.localAccount) : c ≠ colon ∧ c ≠ space ∧ isControl c = false := by
  rcases h.localAccount with hnil | hvalid
  · rw [hnil] at hc
    cases hc
  · exact validLocalAccount_mem hvalid hc

/-- What is behind the domain. -/
def columnsOf (e : CredentialEntry) : Text :=
  digitsOf e.hash ++ if e.localAccount = [] then [] else colon :: e.localAccount

theorem lineOf_eq (e : CredentialEntry) : lineOf e = e.user ++ colon :: (e.domain ++ colon :: columnsOf e) := by
  unfold lineOf columnsOf
  split_ifs
  · rw [append_nil]
  · rfl

theorem mem_lineOf (hc : c ∈ lineOf e) :
    c ∈ e.user ∨ c ∈ e.domain ∨ c ∈ digitsOf e.hash ∨ c ∈ e.localAccount ∨ c = colon := by
  unfold lineOf at hc
  split_ifs at hc
  all_goals
    simp only [mem_append, mem_cons] at hc
    tauto

theorem newline_not_mem_lineOf (h : Stored e) : newline ∉ lineOf e := by
  intro hc
  rcases mem_lineOf hc with hc | hc | hc | hc | hc
  · exact (ne_of_not_control (validName_mem h.user hc).2).1 rfl
  · exact (ne_of_not_control (validName_mem h.domain hc).2).1 rfl
  · exact (mem_digitsOf hc).2.2.1 rfl
  · exact (ne_of_not_control (h.account_mem hc).2.2).1 rfl
  · cases hc

theorem comment_not_mem_lineOf (h : Clean e) : comment ∉ lineOf e := by
  intro hc
  rcases mem_lineOf hc with hc | hc | hc | hc | hc
  · exact h.user hc
  · exact h.domain hc
  · exact (mem_digitsOf hc).2.1 rfl
  · exact h.localAccount hc
  · cases hc

theorem cut_columnsOf (e : CredentialEntry) : cut colon (columnsOf e) =
    (digitsOf e.hash, if e.localAccount = [] then none else some e.localAccount) := by
  have hdigits : colon ∉ digitsOf e.hash := fun hc => (mem_digitsOf hc).1 rfl
  unfold columnsOf
  split_ifs
  · rw [append_nil, cut_of_not_mem hdigits]
  · exact cut_append _ hdigits

theorem trim_lineOf (h : Stored e) (hc : Clean e) : trim (lineOf e) = lineOf e := by
  obtain ⟨front, back, hline, hne, hback⟩ : ∃ front back, lineOf e = front ++ back ∧ back ≠ [] ∧
      ∀ c ∈ back, isBlank c = false := by
    rw [lineOf_eq]
    by_cases ha : e.localAccount = []
    · refine ⟨e.user ++ colon :: (e.domain ++ [colon]), digitsOf e.hash, ?_, digitsOf_ne_nil _,
        fun c hc => (mem_digitsOf hc).2.2.2⟩
      simp [columnsOf, ha]
    · refine ⟨e.user ++ colon :: (e.domain ++ colon :: (digitsOf e.hash ++ [colon])), e.localAccount, ?_, ha,
        fun c hc => ?_⟩
      · simp [columnsOf, ha]
      · obtain ⟨-, hspace, hcontrol⟩ := h.account_mem hc
        obtain ⟨-, htab, hreturn⟩ := ne_of_not_control hcontrol
        simp [isBlank, hspace, htab, hreturn]
  have hhead : ∀ c ∈ (lineOf e).head?, isBlank c = false := by
    have huser : e.user ≠ [] := by
      intro hnil
      have := h.user
      simp [hnil, validName] at this
    rw [lineOf_eq, head?_append_of_ne_nil _ huser]
    exact hc.start
  rw [hline] at hhead ⊢
  exact trim_append hne hback hhead

theorem parseLine_line (lineNo : ℕ) (h : Stored e) (hc : Clean e) : parseLine lineNo (lineOf e) = .ok (some e) := by
  have huser : colon ∉ e.user := fun hc => (validName_mem h.user hc).1 rfl
  have hdomain : colon ∉ e.domain := fun hc => (validName_mem h.domain hc).1 rfl
  have hne : lineOf e ≠ [] := by simp [lineOf_eq]
  have hhex : fromHex none (digitsOf e.hash) = some e.hash.toList := by
    rw [digitsOf, filter_toHex, fromHex_pairs]
  have haccount : ((if e.localAccount = [] then none else some e.localAccount).any fun a => !validLocalAccount a)
      = false := by
    rcases h.localAccount with hnil | hvalid
    · simp [hnil]
    · split_ifs
      · rfl
      · simp [hvalid]
  unfold parseLine
  rw [cut_of_not_mem (comment_not_mem_lineOf hc)]
  simp only [trim_lineOf h hc]
  rw [if_neg hne, lineOf_eq, cut_append _ huser]
  simp only [cut_append _ hdomain, cut_columnsOf, haccount, hhex]
  rw [if_neg (by simp [h.user, h.domain]), dif_pos e.hash.toList_length]
  have hget : (if e.localAccount = [] then none else some e.localAccount).getD [] = e.localAccount := by
    split_ifs with ha
    · exact ha.symm
    · rfl
  rw [hget]
  rfl

/-! ### The file -/

/-- What is looked for: user and domain up to ASCII case. -/
def keyOf (user domain : Text) : Text × Text := (user.map asciiLower, domain.map asciiLower)

theorem isFor_iff {user domain : Text} : e.isFor user domain = true ↔ keyOf e.user e.domain = keyOf user domain := by
  simp [CredentialEntry.isFor, iequals, keyOf]

/-- At most one entry for a user and a domain, whatever their case. -/
def Distinct (entries : List CredentialEntry) : Prop := (entries.map fun e => keyOf e.user e.domain).Nodup

theorem linesOf_append {l : Text} (rest : Text) : ∀ {line : Text}, newline ∉ l →
    linesOf line (l ++ newline :: rest) = (line ++ l) :: linesOf [] rest := by
  induction l with
  | nil => simp [linesOf]
  | cons c l ih =>
    intro line h
    obtain ⟨hc, hl⟩ := not_or.mp (mt mem_cons.mpr h)
    rw [cons_append, linesOf, if_neg (Ne.symm hc), ih hl, append_assoc, singleton_append]

theorem linesOf_entries : ∀ {entries : List CredentialEntry}, (∀ e ∈ entries, Stored e) →
    linesOf [] (entries.flatMap fun e => lineOf e ++ [newline]) = entries.map lineOf ++ [[]]
  | [], _ => rfl
  | e :: entries, h => by
    obtain ⟨he, hrest⟩ := forall_mem_cons.mp h
    rw [flatMap_cons, append_assoc, singleton_append, linesOf_append _ (newline_not_mem_lineOf he),
      linesOf_entries hrest]
    rfl

theorem parseLines_entries : ∀ {entries done : List CredentialEntry} (lineNo : ℕ),
    (∀ e ∈ entries, Stored e ∧ Clean e) → Distinct (done ++ entries) →
    parseLines lineNo ⟨done⟩ (entries.map lineOf ++ [[]]) = .ok ⟨done ++ entries⟩
  | [], done, lineNo, _, _ => by
    rw [append_nil]
    rfl
  | e :: entries, done, lineNo, h, hdistinct => by
    obtain ⟨⟨he, hclean⟩, hrest⟩ := forall_mem_cons.mp h
    have hnew : ¬ (done.any fun e' => e'.isFor e.user e.domain) = true := by
      rw [any_eq_true]
      rintro ⟨e', he', hsame⟩
      unfold Distinct at hdistinct
      rw [map_append] at hdistinct
      exact (nodup_append.mp hdistinct).2.2 _ (mem_map_of_mem he') _ mem_cons_self (isFor_iff.mp hsame)
    rw [map_cons, cons_append, parseLines, parseLine_line lineNo he hclean]
    simp only
    rw [if_neg hnew, parseLines_entries (lineNo + 1) hrest (by simpa using hdistinct), append_assoc, singleton_append]

/-- What is written is read again. -/
theorem parse_serialize (hentries : ∀ e ∈ store.entries, Stored e ∧ Clean e) (hdistinct : Distinct store.entries) :
    parse (serialize store) = .ok store := by
  have hheader : newline ∉ header := by
    have : ∀ c ∈ header, c ≠ newline := forall_of_all (by decide)
    exact fun h => this _ h rfl
  have hskip : parseLine 1 header = .ok none := by
    have hcut : cut comment header = ([], some header.tail) := by decide
    rw [parseLine, hcut]
    rfl
  unfold parse serialize
  rw [linesOf_append _ hheader, linesOf_entries fun e he => (hentries e he).1, nil_append, parseLines, hskip]
  exact parseLines_entries 2 hentries (by simpa using hdistinct)

/-! ### Stores -/

/-- What holds of every store. -/
structure Sound (store : CredentialStore) : Prop where
  stored : ∀ e ∈ store.entries, Stored e
  distinct : Distinct store.entries

theorem distinct_snoc {entries : List CredentialEntry} (h : Distinct entries)
    (hnew : ∀ e' ∈ entries, e'.isFor e.user e.domain = false) : Distinct (entries ++ [e]) := by
  unfold Distinct at h ⊢
  rw [map_append, map_singleton]
  refine List.Nodup.append h (nodup_singleton _) ?_
  rw [disjoint_singleton]
  intro hmem
  obtain ⟨e', he', hkey⟩ := mem_map.mp hmem
  have hfor := isFor_iff.mpr hkey
  rw [hnew e' he'] at hfor
  cases hfor

/-- A line that is read has an entry that can be written. -/
theorem parseLine_stored {lineNo : ℕ} {line : Text} (h : parseLine lineNo line = .ok (some e)) :
    Stored e ∧ Clean e := by
  obtain ⟨hcut, -⟩ := cut_spec comment line
  obtain ⟨hsub, hhead⟩ := trim_spec (cut comment line).1
  have hcomment : comment ∉ trim (cut comment line).1 := fun hc => hcut (hsub _ hc)
  unfold parseLine at h
  dsimp only at h
  generalize trim (cut comment line).1 = l at h hhead hcomment
  have huser := (cut_spec colon l).2
  split_ifs at h
  · cases h
  rcases hl : cut colon l with ⟨user, _ | rest⟩
  · rw [hl] at h
    cases h
  rw [hl] at h huser
  have hdomain := (cut_spec colon rest).2
  rcases hrest : cut colon rest with ⟨domain, _ | rest'⟩
  · simp only [hrest] at h
    cases h
  simp only [hrest] at h hdomain
  have haccount := (cut_spec colon rest').2
  rcases hcolumns : cut colon rest' with ⟨digits, account⟩
  simp only [hcolumns] at h haccount
  split_ifs at h with hnames hvalid
  · cases h
  · cases h
  obtain ⟨hu, hd⟩ := not_or.mp hnames
  simp only [Bool.not_eq_false] at hu hd
  have hclean : comment ∉ user ∧ comment ∉ domain ∧ comment ∉ account.getD [] := by
    refine ⟨?_, ?_, ?_⟩
    · rw [huser] at hcomment
      exact fun hc => hcomment (mem_append_left _ hc)
    · rw [huser, hdomain] at hcomment
      exact fun hc => hcomment (by simp [hc])
    · intro hc
      cases account with
      | none => cases hc
      | some account => exact hcomment (by simp_all)
  cases hhex : fromHex none digits with
  | none =>
    rw [hhex] at h
    cases h
  | some bytes =>
    simp only [hhex] at h
    split_ifs at h with hlength
    swap
    · cases h
    cases h
    refine ⟨⟨hu, hd, ?_⟩, ⟨hclean.1, hclean.2.1, hclean.2.2, ?_⟩⟩
    · cases account with
      | none => exact .inl rfl
      | some account => exact .inr (by simpa using hvalid)
    · intro c hc
      refine hhead c ?_
      rw [huser, head?_append, Option.mem_def.mp hc]
      rfl

theorem parseLines_sound : ∀ {lines : List Text} {lineNo : ℕ} {store store' : CredentialStore}, Sound store →
    (∀ e ∈ store.entries, Clean e) → parseLines lineNo store lines = .ok store' →
    Sound store' ∧ ∀ e ∈ store'.entries, Clean e
  | [], _, store, store', hs, hc, h => by
    cases h
    exact ⟨hs, hc⟩
  | line :: lines, lineNo, store, store', hs, hc, h => by
    rw [parseLines] at h
    rcases hline : parseLine lineNo line with error | _ | e
    · rw [hline] at h
      cases h
    · rw [hline] at h
      exact parseLines_sound hs hc h
    · simp only [hline] at h
      split_ifs at h with hnew
      · cases h
      obtain ⟨hstored, hclean⟩ := parseLine_stored hline
      refine parseLines_sound ⟨?_, distinct_snoc hs.distinct (by simpa using hnew)⟩ ?_ h
      · exact forall_mem_append.mpr ⟨hs.stored, by simpa using hstored⟩
      · exact forall_mem_append.mpr ⟨hc, by simpa using hclean⟩

/-- One entry is changed, and the names stay. -/
theorem change_spec (user domain : Text) {f : CredentialEntry → CredentialEntry}
    (hf : ∀ e, (f e).user = e.user ∧ (f e).domain = e.domain) : ∀ {l : List CredentialEntry},
    match change user domain f l with
    | some l' => l'.map (fun e => keyOf e.user e.domain) = l.map (fun e => keyOf e.user e.domain) ∧
        ∀ e ∈ l', e ∈ l ∨ ∃ e' ∈ l, e = f e'
    | none => ∀ e ∈ l, e.isFor user domain = false
  | [] => by simp [change]
  | e :: l => by
    unfold change
    split_ifs with he
    · refine ⟨by simp [hf], fun x hx => ?_⟩
      rcases mem_cons.mp hx with rfl | hx
      · exact .inr ⟨e, mem_cons_self, rfl⟩
      · exact .inl (mem_cons_of_mem _ hx)
    · have ih := change_spec user domain hf (l := l)
      cases hl : change user domain f l with
      | none =>
        rw [hl] at ih
        exact forall_mem_cons.mpr ⟨by simpa using he, ih⟩
      | some l' =>
        rw [hl] at ih
        refine ⟨congrArg (keyOf e.user e.domain :: ·) ih.1, fun x hx => ?_⟩
        rcases mem_cons.mp hx with rfl | hx
        · exact .inl mem_cons_self
        · exact (ih.2 x hx).imp (mem_cons_of_mem _) fun ⟨e', he', hx⟩ => ⟨e', mem_cons_of_mem _ he', hx⟩

/-- A change of entries that is kept by every call. -/
theorem Sound.change {user domain : Text} (f : CredentialEntry → CredentialEntry) {l : List CredentialEntry}
    {P : CredentialEntry → Prop} (hs : Sound store) (hf : ∀ e, (f e).user = e.user ∧ (f e).domain = e.domain)
    (hstored : ∀ e, Stored e → Stored (f e)) (hP : ∀ e, P e → P (f e)) (h : change user domain f store.entries = some l) :
    Sound ⟨l⟩ ∧ ((∀ e ∈ store.entries, P e) → ∀ e ∈ l, P e) := by
  have hspec := change_spec user domain hf (l := store.entries)
  rw [h] at hspec
  obtain ⟨hkeys, hmem⟩ := hspec
  refine ⟨⟨fun e he => ?_, ?_⟩, fun hall e he => ?_⟩
  · rcases hmem e he with he | ⟨e', he', rfl⟩
    · exact hs.stored e he
    · exact hstored e' (hs.stored e' he')
  · rw [Distinct, hkeys]
    exact hs.distinct
  · rcases hmem e he with he | ⟨e', he', rfl⟩
    · exact hall e he
    · exact hP e' (hall e' he')

/-- What a name needs to be found again. -/
def Edit.Readable : Edit → Prop
  | .set user domain _ => comment ∉ user ∧ user.head? ≠ some space ∧ comment ∉ domain
  | .setLocalAccount _ _ account => comment ∉ account
  | .remove _ _ => True

instance : DecidablePred Edit.Readable
  | .set _ _ _ => inferInstanceAs (Decidable (_ ∧ _))
  | .setLocalAccount _ _ _ => inferInstanceAs (Decidable (_ ∉ _))
  | .remove _ _ => inferInstanceAs (Decidable True)

theorem Sound.apply (hs : Sound store) {edit : Edit} (h : edit.Allowed) : Sound (store.apply edit) ∧
    (edit.Readable → (∀ e ∈ store.entries, Clean e) → ∀ e ∈ (store.apply edit).entries, Clean e) := by
  cases edit with
  | set user domain hash =>
    have hspec := change_spec user domain (f := fun e => { e with hash }) (fun _ => ⟨rfl, rfl⟩) (l := store.entries)
    simp only [CredentialStore.apply, set]
    cases hl : CredentialStore.change user domain (fun e => { e with hash }) store.entries with
    | some l =>
      obtain ⟨hl, hclean⟩ := Sound.change (P := Clean) (fun e => { e with hash }) hs (fun _ => ⟨rfl, rfl⟩)
        (fun _ he => { he with }) (fun _ he => { he with }) hl
      exact ⟨hl, fun _ => hclean⟩
    | none =>
      rw [hl] at hspec
      refine ⟨⟨?_, distinct_snoc hs.distinct hspec⟩, fun hread hall => ?_⟩
      · exact forall_mem_append.mpr ⟨hs.stored, by simpa using ⟨h.1, h.2, .inl rfl⟩⟩
      · refine forall_mem_append.mpr ⟨hall, ?_⟩
        rw [forall_mem_singleton]
        refine ⟨hread.1, hread.2.2, not_mem_nil, fun c hc => ?_⟩
        have hmem : c ∈ user := mem_of_mem_head? hc
        obtain ⟨-, htab, hreturn⟩ := ne_of_not_control (validName_mem h.1 hmem).2
        have hspace : c ≠ space := by
          rintro rfl
          exact hread.2.1 hc
        simp [isBlank, hspace, htab, hreturn]
  | setLocalAccount user domain account =>
    simp only [CredentialStore.apply, setLocalAccount]
    cases hl : CredentialStore.change user domain (fun e => { e with localAccount := account }) store.entries with
    | some l =>
      obtain ⟨hl, hclean⟩ := Sound.change (P := fun e => comment ∉ account → Clean e)
        (fun e => { e with localAccount := account }) hs (fun _ => ⟨rfl, rfl⟩)
        (fun _ he => { he with localAccount := h }) (fun _ he hc => { he hc with localAccount := hc }) hl
      exact ⟨hl, fun hread hall e he => hclean (fun e he _ => hall e he) e he hread⟩
    | none => exact ⟨hs, fun _ hall => hall⟩
  | remove user domain =>
    have hsub : (store.entries.eraseP fun e => e.isFor user domain).Sublist store.entries := eraseP_sublist
    exact ⟨⟨fun e he => hs.stored e (hsub.subset he), hs.distinct.sublist (hsub.map _)⟩,
      fun _ hall e he => hall e (hsub.subset he)⟩

theorem run_sound : ∀ {edits : List Edit} {store : CredentialStore}, Sound store → (∀ edit ∈ edits, edit.Allowed) →
    Sound (store.run edits) ∧ ((∀ edit ∈ edits, edit.Readable) → (∀ e ∈ store.entries, Clean e) →
      ∀ e ∈ (store.run edits).entries, Clean e)
  | [], _, hs, _ => ⟨hs, fun _ hall => hall⟩
  | edit :: edits, store, hs, hallowed => by
    obtain ⟨hfirst, hrest⟩ := forall_mem_cons.mp hallowed
    obtain ⟨hs', hclean⟩ := hs.apply hfirst
    obtain ⟨hsound, hrun⟩ := run_sound hs' hrest
    refine ⟨hsound, fun hread hall => ?_⟩
    obtain ⟨hread, hreads⟩ := forall_mem_cons.mp hread
    exact hrun hreads (hclean hread hall)

/-! ### Looking up -/

/-- Behind a wildcard entry there is no other one. -/
theorem findFrom_eq (user domain : Text) : ∀ {entries : List CredentialEntry} {wildcard : Option CredentialEntry},
    Distinct entries → (wildcard ≠ none → ∀ e ∈ entries, e.isFor user [] = false) →
    findFrom user domain wildcard entries = (entries.find? fun e => e.domain ≠ [] && e.isFor user domain).or
      ((entries.find? fun e => e.isFor user []).or wildcard)
  | [], _, _, _ => rfl
  | e :: entries, wildcard, hd, hw => by
    obtain ⟨hnot, hrest⟩ := nodup_cons.mp hd
    have hempty : iequals e.domain [] = decide (e.domain = []) := by cases hd : e.domain <;> simp [iequals]
    unfold findFrom
    split_ifs with huser hexact hnil
    · have hfor : ∀ domain, e.isFor user domain = false := by simp [CredentialEntry.isFor, huser]
      rw [findFrom_eq user domain hrest fun h e he => hw h e (mem_cons_of_mem _ he)]
      simp [hfor]
    · simp only [Bool.not_eq_false] at huser
      simp [find?_cons, CredentialEntry.isFor, huser, hexact]
    · simp only [Bool.not_eq_false] at huser
      have hfor : e.isFor user [] = true := by rw [CredentialEntry.isFor, huser, hempty, hnil]; rfl
      have hother : ∀ e' ∈ entries, e'.isFor user [] = false := by
        intro e' he'
        by_contra hsame
        have hkey := isFor_iff.mp (Bool.eq_true_of_not_eq_false hsame)
        exact hnot (mem_map.mpr ⟨e', he', hkey.trans (isFor_iff.mp hfor).symm⟩)
      have hnone : entries.find? (fun e => e.isFor user []) = none := by simpa using hother
      rw [findFrom_eq user domain hrest fun _ => hother]
      simp [hnil, hfor, hnone]
    · have hfor : e.isFor user [] = false := by simp [CredentialEntry.isFor, hempty, hnil]
      have hdomain : iequals e.domain domain = false := by simpa [hnil] using hexact
      rw [findFrom_eq user domain hrest fun h e he => hw h e (mem_cons_of_mem _ he)]
      have hexact' : e.isFor user domain = false := by simp [CredentialEntry.isFor, hdomain]
      simp [hfor, hexact']

/-! ### Every store -/

/-- **The file keeps every user**, when all names given to the store are `Readable`; names are always distinct, and a
lookup takes the entry of the domain, or the one for any domain. -/
theorem run_readable (store : CredentialStore) (hstart : store = ⟨[]⟩ ∨ ∃ file, parse file = .ok store)
    (edits : List Edit) (hallowed : ∀ edit ∈ edits, edit.Allowed) :
    ((∀ edit ∈ edits, edit.Readable) → parse (serialize (store.run edits)) = .ok (store.run edits)) ∧
      Distinct (store.run edits).entries ∧
      ∀ user domain, (store.run edits).lookup user domain =
        (((store.run edits).entries.find? fun e => e.domain ≠ [] && e.isFor user domain).or
          ((store.run edits).entries.find? fun e => e.isFor user [])).map (·.hash) := by
  have hempty : Sound ⟨[]⟩ := ⟨by simp, nodup_nil⟩
  obtain ⟨hs, hc⟩ : Sound store ∧ ∀ e ∈ store.entries, Clean e := by
    rcases hstart with rfl | ⟨file, hfile⟩
    · exact ⟨hempty, by simp⟩
    · exact parseLines_sound hempty (by simp) hfile
  obtain ⟨hsound, hclean⟩ := run_sound hs hallowed
  refine ⟨fun hread => ?_, hsound.distinct, fun user domain => ?_⟩
  · exact parse_serialize (fun e he => ⟨hsound.stored e he, hclean hread hc e he⟩) hsound.distinct
  · rw [lookup, find, findFrom_eq user domain hsound.distinct (by simp), Option.or_none]

/-- Two users of one name, and a local account for the first. -/
def bobEdits : List Edit := [.set (text "Bob") (text "LAB") ⟨List.replicate 16 7, rfl⟩,
  .set (text "bob") [] ⟨List.replicate 16 8, rfl⟩, .setLocalAccount (text "bob") (text "lab") (text "bsmith")]

theorem run_readable_bob : parse (serialize (run ⟨[]⟩ bobEdits)) = .ok (run ⟨[]⟩ bobEdits) :=
  (run_readable ⟨[]⟩ (.inl rfl) bobEdits (forall_of_all (by decide))).1 (forall_of_all (by decide))

/-- **A name may hold the sign of a comment**: the store is written, and cannot be read. -/
theorem name_with_comment : ¬ ∀ (edits : List Edit), (∀ edit ∈ edits, edit.Allowed) →
    parse (serialize (run ⟨[]⟩ edits)) = .ok (run ⟨[]⟩ edits) := by
  intro h
  have hrun := h [.set (text "a#b") [] ⟨List.replicate 16 7, rfl⟩] (forall_of_all (by decide))
  revert hrun
  decide

end CredentialStore
end Daemon
end Farland
