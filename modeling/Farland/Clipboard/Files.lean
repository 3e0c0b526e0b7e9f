/-
# Files on the clipboard

Names and URIs of `server/clipboard_files.cpp`. A file name of the client is
split into components below the staging directory; the staged files are named
to the desktop by `file://` URIs, which `parse_uri_list` takes apart again when
the desktop copies them. Paths are byte strings without a NUL, in no particular
encoding.

Key theorems: `splitClientName_ok`, `splitClientName_eq_bridge`,
`parse_stagedUris`.
-/
import Farland.Clipboard.Bridge

namespace Farland
namespace Clipboard
namespace ClipboardFiles

open List

/-! ### Bytes -/

def backslash : UInt8 := 0x5C
def slash : UInt8 := 0x2F
def colon : UInt8 := 0x3A
def percent : UInt8 := 0x25
def newline : UInt8 := 0x0A
def carriageReturn : UInt8 := 0x0D
def numberSign : UInt8 := 0x23

/-! ### Client names -/

/-- What `split_client_name` checks of one component. -/
def checkComponent (component : Text) : Result Unit :=
  if component = [] ∨ component = text "." ∨ component = text ".." then
    fail .invalidValue "file name with an empty, . or .. component"
  else if component.length > maxComponentBytes then
    fail .limitExceeded "file name component longer than 255 bytes"
  else if component.any fun c => c < 0x20 || c == 0x7F || c == slash || c == colon then
    fail .invalidValue "file name with a control character, slash or colon"
  else .ok ()

/-- The loop over the components, behind the ones that passed. -/
def checkComponents (components : List Text) : List Text → Result (List Text)
  | [] => .ok components
  | component :: rest =>
    match checkComponent component with
    | .error e => .error e
    | .ok () =>
      if (components ++ [component]).length > maxLevels then
        fail .limitExceeded "file name nested more than 32 levels deep"
      else checkComponents (components ++ [component]) rest

def splitClientName (name : Text) : Result (List Text) := checkComponents [] (name.splitOn backslash)

/-! ### URIs -/

def hexValue (c : UInt8) : Option ℕ :=
  if 0x30 ≤ c ∧ c ≤ 0x39 then some (c.toNat - 0x30)
  else if 0x61 ≤ c ∧ c ≤ 0x66 then some (c.toNat - 0x61 + 10)
  else if 0x41 ≤ c ∧ c ≤ 0x46 then some (c.toNat - 0x41 + 10)
  else none

/-- `none` for an escape that is cut short, is no number or is a NUL. -/
def percentDecode : Text → Option Text
  | [] => some []
  | c :: rest =>
    if c ≠ percent then (percentDecode rest).map (c :: ·)
    else
      match rest with
      | first :: second :: rest =>
        match hexValue first, hexValue second with
        | some high, some low =>
          if high = 0 ∧ low = 0 then none
          else (percentDecode rest).map (UInt8.ofNat (high <<< 4 ||| low) :: ·)
        | _, _ => none
      | _ => none

/-- The path that a line names, if it is a file of this host. -/
def localPath (line : Text) : Option Text :=
  if line = [] ∨ [numberSign].isPrefixOf line ∨ ¬ (text "file://").isPrefixOf line then none
  else
    let line := line.drop 7
    let line := if (text "localhost/").isPrefixOf line then line.drop 9 else line
    if ¬ [slash].isPrefixOf line then none else percentDecode line

/-- The lines of a text; the last one need not be ended. -/
def lines (content : Text) : List Text :=
  let pieces := content.splitOn newline
  if pieces.getLast? = some [] then pieces.dropLast else pieces

/-- A line without the carriage return at its end. -/
def withoutReturn (line : Text) : Text := if line.getLast? = some carriageReturn then line.dropLast else line

/-- The loop over the lines; `first` until one was read. -/
def parseLines : Bool → List Text → List Text
  | _, [] => []
  | first, line :: rest =>
    let line := withoutReturn line
    if first ∧ (line = text "copy" ∨ line = text "cut") then parseLines false rest
    else (localPath line).toList ++ parseLines false rest

def parseUriList (content : Text) : List Text := parseLines true (lines content)

/-- Bytes that stand for themselves in a URI. -/
def plain (u : UInt8) : Bool :=
  (0x61 ≤ u && u ≤ 0x7A) || (0x41 ≤ u && u ≤ 0x5A) || (0x30 ≤ u && u ≤ 0x39) || u == slash || u == 0x2D || u == 0x5F ||
    u == 0x2E || u == 0x7E

/-- An upper-case hexadecimal digit. -/
def hexDigit (n : ℕ) : UInt8 := if n < 10 then UInt8.ofNat (0x30 + n) else UInt8.ofNat (0x41 + n - 10)

/-- A byte of a path, escaped unless it is plain. -/
def escape (c : UInt8) : Text := if plain c then [c] else [percent, hexDigit (c.toNat / 16), hexDigit (c.toNat % 16)]

def fileUri (path : Text) : Text := text "file://" ++ path.flatMap escape

/-! ### Which names are split -/

/-- A name that cannot leave the directory it is made in. -/
structure Portable (component : Text) : Prop where
  nonempty : 1 ≤ component.length
  short : component.length ≤ 255
  notDot : component ≠ text "."
  notDotDot : component ≠ text ".."
  bytes : ∀ c ∈ component, ¬ c < 0x20 ∧ c ≠ 0x7F ∧ c ≠ slash ∧ c ≠ colon

theorem checkComponent_ok {component : Text} : checkComponent component = .ok () ↔ Portable component := by
  unfold checkComponent
  have hbytes : (component.any fun c => c < 0x20 || c == 0x7F || c == slash || c == colon) = false ↔
      ∀ c ∈ component, ¬ c < 0x20 ∧ c ≠ 0x7F ∧ c ≠ slash ∧ c ≠ colon := by
    simp [and_assoc]
  by_cases hname : component = [] ∨ component = text "." ∨ component = text ".."
  · rw [if_pos hname]
    refine ⟨fun h => (by cases h), fun h => ?_⟩
    rcases hname with rfl | hdot | hdots
    · exact absurd h.nonempty (by decide)
    · exact (h.notDot hdot).elim
    · exact (h.notDotDot hdots).elim
  rw [if_neg hname]
  by_cases hlong : component.length > maxComponentBytes
  · rw [if_pos hlong]
    exact ⟨fun h => (by cases h), fun h => absurd h.short (not_le.mpr hlong)⟩
  rw [if_neg hlong]
  by_cases hbad : (component.any fun c => c < 0x20 || c == 0x7F || c == slash || c == colon) = true
  · rw [if_pos hbad]
    refine ⟨fun h => (by cases h), fun h => ?_⟩
    rw [hbytes.mpr h.bytes] at hbad
    cases hbad
  · rw [if_neg hbad]
    push Not at hname
    exact ⟨fun _ => ⟨length_pos_iff.mpr hname.1, not_lt.mp hlong, hname.2.1, hname.2.2,
      hbytes.mp (Bool.not_eq_true _ ▸ hbad)⟩, fun _ => rfl⟩

theorem checkComponents_ok (out : List Text) : ∀ (rest components : List Text), components.length ≤ maxLevels →
    (checkComponents components rest = .ok out ↔
      (∀ c ∈ rest, Portable c) ∧ components.length + rest.length ≤ maxLevels ∧ out = components ++ rest)
  | [], components, hlevels => by simp [checkComponents, hlevels, eq_comm]
  | component :: rest, components, hlevels => by
    have ih := checkComponents_ok out rest (components ++ [component])
    rw [length_append, length_singleton] at ih
    unfold checkComponents
    rcases hcheck : checkComponent component with e | u
    · refine ⟨fun h => (by cases h), fun h => ?_⟩
      have hok := checkComponent_ok.mpr (h.1 component mem_cons_self)
      rw [hcheck] at hok
      cases hok
    have hportable := checkComponent_ok.mp hcheck
    simp only [length_append, length_singleton]
    by_cases hmore : components.length + 1 > maxLevels
    · rw [if_pos hmore]
      refine ⟨fun h => (by cases h), fun h => ?_⟩
      have hle := h.2.1
      rw [length_cons] at hle
      omega
    rw [if_neg hmore, ih (not_lt.mp hmore), forall_mem_cons, length_cons, append_assoc,
      singleton_append]
    refine ⟨fun ⟨h1, h2, h3⟩ => ⟨⟨hportable, h1⟩, by omega, h3⟩, fun ⟨h1, h2, h3⟩ => ⟨h1.2, by omega, h3⟩⟩

/-- The pieces of a list do not hold what it was split at. -/
theorem not_mem_of_mem_splitOn {α : Type} [DecidableEq α] {a : α} {l piece : List α} (h : piece ∈ l.splitOn a) :
    a ∉ piece := by
  induction l generalizing piece with
  | nil =>
    rw [splitOn_nil, mem_singleton] at h
    subst h
    exact not_mem_nil
  | cons x l ih =>
    rw [splitOn_cons_eq_if_modifyHead] at h
    split_ifs at h with hx
    · rcases mem_cons.mp h with rfl | h
      · exact not_mem_nil
      · exact ih h
    · obtain ⟨front, pieces, hsplit⟩ := exists_cons_of_ne_nil (splitOn_ne_nil a l)
      rw [hsplit] at h
      rcases mem_cons.mp h with rfl | h
      · have hfront : a ∉ front := ih (hsplit ▸ mem_cons_self)
        simp only [beq_iff_eq] at hx
        simp [hfront, Ne.symm hx]
      · exact ih (hsplit ▸ mem_cons_of_mem _ h)

/-- **A name is split exactly when it is a list of portable components**, and
the components joined again are the name. -/
theorem splitClientName_ok {name : Text} {components : List Text} :
    splitClientName name = .ok components ↔
      (1 ≤ components.length ∧ components.length ≤ 32 ∧ ∀ c ∈ components, Portable c ∧ backslash ∉ c) ∧
        name = [backslash].intercalate components := by
  unfold splitClientName
  rw [checkComponents_ok _ _ _ (Nat.zero_le _), length_nil, Nat.zero_add]
  constructor
  · rintro ⟨hportable, hlevels, rfl⟩
    have hpos := length_pos_iff.mpr (splitOn_ne_nil backslash name)
    refine ⟨⟨hpos, hlevels, fun c hc => ⟨hportable c hc, not_mem_of_mem_splitOn hc⟩⟩, ?_⟩
    exact (intercalate_splitOn backslash).symm
  · rintro ⟨⟨hpos, hlevels, hcomponents⟩, rfl⟩
    have hne : components ≠ [] := length_pos_iff.mp hpos
    rw [splitOn_intercalate backslash (fun c hc => (hcomponents c hc).2) hne]
    exact ⟨fun c hc => (hcomponents c hc).1, hlevels, rfl⟩

theorem badComponent_eq_false {component : Text} : badComponent component = false ↔ Portable component := by
  rw [← checkComponent_ok]
  unfold badComponent checkComponent
  by_cases h1 : component = [] <;> by_cases h2 : component = text "." <;> by_cases h3 : component = text ".." <;>
    by_cases h4 : component.length > maxComponentBytes <;> simp [h1, h2, h3, h4, slash, colon, fail]

/-- The bridge sees the same components. -/
theorem splitClientName_eq_bridge (name : Text) :
    (splitClientName name).toOption = Clipboard.splitClientName name := by
  have hok (components : List Text) : splitClientName name = .ok components ↔
      (∀ c ∈ name.splitOn backslash, Portable c) ∧ (name.splitOn backslash).length ≤ maxLevels ∧
        components = name.splitOn backslash := by
    unfold splitClientName
    rw [checkComponents_ok _ _ _ (Nat.zero_le _), nil_append, length_nil, Nat.zero_add]
  have hbad : (name.splitOn backslash).any badComponent = false ↔ ∀ c ∈ name.splitOn backslash, Portable c := by
    simp only [any_eq_false, Bool.not_eq_true, badComponent_eq_false]
  unfold Clipboard.splitClientName
  change _ = if (name.splitOn backslash).any badComponent ∨ maxLevels < (name.splitOn backslash).length then none
    else some (name.splitOn backslash)
  by_cases hpass : (∀ c ∈ name.splitOn backslash, Portable c) ∧ (name.splitOn backslash).length ≤ maxLevels
  · rw [(hok _).mpr ⟨hpass.1, hpass.2, rfl⟩, if_neg]
    · rfl
    · rw [hbad.mpr hpass.1]
      simpa using hpass.2
  · rw [if_pos]
    · rcases hsplit : splitClientName name with e | components
      · rfl
      · exact (hpass ⟨((hok _).mp hsplit).1, ((hok _).mp hsplit).2.1⟩).elim
    · by_contra hnone
      push Not at hnone
      exact hpass ⟨hbad.mp (Bool.not_eq_true _ ▸ hnone.1), hnone.2⟩

/-! ### Escaping -/

theorem hexValue_hexDigit : ∀ n < 16, hexValue (hexDigit n) = some n := by decide

theorem plain_hexDigit : ∀ n < 16, plain (hexDigit n) = true := by decide

theorem ne_percent_of_plain {c : UInt8} (h : plain c = true) : c ≠ percent := by
  rintro rfl
  exact absurd h (by decide)

theorem percentDecode_cons {c : UInt8} (h : c ≠ percent) (rest : Text) :
    percentDecode (c :: rest) = (percentDecode rest).map (c :: ·) := by
  rw [percentDecode.eq_def]
  exact if_pos h

/-- Escaping a byte is undone, unless it is a NUL. -/
theorem percentDecode_escape {c : UInt8} (h : c ≠ 0) (rest : Text) :
    percentDecode (escape c ++ rest) = (percentDecode rest).map (c :: ·) := by
  unfold escape
  by_cases hplain : plain c = true
  · rw [if_pos hplain]
    exact percentDecode_cons (ne_percent_of_plain hplain) rest
  rw [if_neg hplain]
  have hc : c.toNat < 256 := c.toNat_lt
  have hpos : c.toNat ≠ 0 := fun h0 => h (UInt8.toNat_inj.mp h0)
  have hbyte : (c.toNat / 16) <<< 4 ||| c.toNat % 16 = c.toNat := by
    rw [Nat.shiftLeft_eq, Nat.mul_comm, ← Nat.two_pow_add_eq_or_of_lt (by omega)]
    omega
  simp only [cons_append, nil_append]
  rw [percentDecode, if_neg (not_not.mpr rfl), hexValue_hexDigit _ (by omega), hexValue_hexDigit _ (by omega)]
  simp only [hbyte, UInt8.ofNat_toNat]
  rw [if_neg (by omega)]

theorem percentDecode_path {path : Text} (h : 0 ∉ path) : percentDecode (path.flatMap escape) = some path := by
  induction path with
  | nil => rfl
  | cons c path ih =>
    rw [mem_cons, not_or] at h
    rw [flatMap_cons, percentDecode_escape (Ne.symm h.1), ih h.2]
    rfl

/-- What an escaped path is made of. -/
theorem mem_escape {b c : UInt8} (h : b ∈ escape c) : plain b = true ∨ b = percent := by
  unfold escape at h
  have hc : c.toNat < 256 := c.toNat_lt
  by_cases hplain : plain c = true
  · rw [if_pos hplain, mem_singleton] at h
    exact Or.inl (h ▸ hplain)
  · rw [if_neg hplain] at h
    simp only [mem_cons, not_mem_nil, or_false] at h
    rcases h with rfl | rfl | rfl
    · exact Or.inr rfl
    · exact Or.inl (plain_hexDigit _ (by omega))
    · exact Or.inl (plain_hexDigit _ (by omega))

/-- **A URI is one line**: neither end of a line can stand in it. -/
theorem fileUri_line (path : Text) : newline ∉ fileUri path ∧ carriageReturn ∉ fileUri path := by
  have hends (b : UInt8) (h7 : b ∉ text "file://") (hplain : plain b = false) (hpercent : b ≠ percent) :
      b ∉ fileUri path := by
    unfold fileUri
    rw [mem_append, not_or]
    refine ⟨h7, fun hb => ?_⟩
    obtain ⟨c, -, hc⟩ := mem_flatMap.mp hb
    rcases mem_escape hc with h | h
    · rw [hplain] at h
      cases h
    · exact hpercent h
  exact ⟨hends _ (by decide) (by decide) (by decide), hends _ (by decide) (by decide) (by decide)⟩

/-! ### Reading URIs -/

/-- An absolute path, in no particular encoding. -/
def Absolute (path : Text) : Prop := path.head? = some slash ∧ 0 ∉ path

theorem localPath_fileUri {path : Text} (h : Absolute path) : localPath (fileUri path) = some path := by
  obtain ⟨hhead, hnul⟩ := h
  obtain ⟨tail, rfl⟩ : ∃ tail, path = slash :: tail := by
    cases path with
    | nil => cases hhead
    | cons c tail => exact ⟨tail, by rw [Option.some.inj hhead]⟩
  have hstart : (text "file://").isPrefixOf (fileUri (slash :: tail)) = true :=
    isPrefixOf_iff_prefix.mpr (prefix_append _ _)
  unfold localPath
  rw [if_neg]
  · rw [if_neg, if_neg]
    · exact percentDecode_path hnul
    · exact Bool.false_ne_true
    · exact not_not.mpr rfl
  · rw [hstart]
    simp only [not_true_eq_false, or_false, not_or]
    exact ⟨append_ne_nil_of_left_ne_nil (by decide) _, Bool.false_ne_true⟩

theorem withoutReturn_of_not_mem {line : Text} (h : carriageReturn ∉ line) : withoutReturn line = line := by
  unfold withoutReturn
  rw [if_neg]
  exact fun hlast => h (mem_of_getLast? hlast)

theorem withoutReturn_append (line : Text) : withoutReturn (line ++ [carriageReturn]) = line := by
  unfold withoutReturn
  rw [if_pos getLast?_concat, dropLast_concat]

/-- A line that is a URI gives its path, whether it ends in a carriage return or not. -/
theorem parseLines_cons {first : Bool} {line path : Text} (h : Absolute path)
    (hline : withoutReturn line = fileUri path) (rest : List Text) :
    parseLines first (line :: rest) = path :: parseLines false rest := by
  have hshort {word : Text} (hword : word.length < 7) : fileUri path ≠ word := by
    intro heq
    have hlength := congrArg List.length heq
    rw [fileUri, length_append] at hlength
    exact absurd (hlength ▸ hword) (by rw [show (text "file://").length = 7 from by decide]; omega)
  rw [parseLines, hline, if_neg, localPath_fileUri h]
  · rfl
  · rintro ⟨-, hcopy | hcut⟩
    · exact hshort (by decide) hcopy
    · exact hshort (by decide) hcut

theorem parseLines_uris {paths : List Text} (h : ∀ p ∈ paths, Absolute p) (ending : Text)
    (hending : ∀ p, withoutReturn (fileUri p ++ ending) = fileUri p) : ∀ first : Bool,
    parseLines first (paths.map fun p => fileUri p ++ ending) = paths := by
  induction paths with
  | nil =>
    intro first
    cases first <;> rfl
  | cons path paths ih =>
    intro first
    rw [map_cons, parseLines_cons (h path mem_cons_self) (hending path),
      ih (fun p hp => h p (mem_cons_of_mem _ hp)) false]

/-- Lines that are all ended. -/
theorem splitOn_ended (ls : List Text) (h : ∀ l ∈ ls, newline ∉ l) :
    (ls.flatMap fun l => l ++ [newline]).splitOn newline = ls ++ [[]] := by
  induction ls with
  | nil => rfl
  | cons l ls ih =>
    rw [flatMap_cons, append_assoc, singleton_append,
      splitOn_append_cons_self_of_not_mem (h l mem_cons_self),
      ih fun x hx => h x (mem_cons_of_mem _ hx), cons_append]

/-- Lines that are all begun by a newline, behind a first one. -/
theorem splitOn_begun (first : Text) (ls : List Text) (hfirst : newline ∉ first) (h : ∀ l ∈ ls, newline ∉ l) :
    (first ++ ls.flatMap fun l => newline :: l).splitOn newline = first :: ls := by
  induction ls generalizing first with
  | nil => rw [flatMap_nil, append_nil, splitOn_eq_singleton hfirst]
  | cons l ls ih =>
    rw [flatMap_cons, cons_append, splitOn_append_cons_self_of_not_mem hfirst,
      ih l (h l mem_cons_self) fun x hx => h x (mem_cons_of_mem _ hx)]

/-- **Files survive the desktop clipboard**: whichever form the desktop asks
for, the paths that were staged are read back, in order; and a name of the
client is split exactly when its components are portable, which joined are the
name. -/
theorem parse_stagedUris :
    (∀ (w : World) (mimeType : Text) (items : List Text), (∀ p ∈ items, Absolute p) →
      parseUriList (ClipboardBridge.stagedUris { w with fileUri := fileUri } items mimeType) = items) ∧
    ∀ (name : Text) (components : List Text), splitClientName name = .ok components ↔
      (1 ≤ components.length ∧ components.length ≤ 32 ∧ ∀ c ∈ components, Portable c ∧ backslash ∉ c) ∧
        name = [backslash].intercalate components := by
  refine ⟨fun w mimeType items h => ?_, fun _ _ => splitClientName_ok⟩
  unfold ClipboardBridge.stagedUris parseUriList lines
  by_cases hmime : mimeType = gnomeFilesMime
  · rw [if_pos hmime]
    have hpieces : (text "copy" ++ items.flatMap fun item => text "\n" ++ fileUri item).splitOn newline =
        text "copy" :: items.map fileUri := by
      rw [← splitOn_begun (text "copy") (items.map fileUri) (by decide), flatMap_map]
      · rfl
      · intro l hl
        obtain ⟨p, -, rfl⟩ := mem_map.mp hl
        exact (fileUri_line p).1
    have hlast : (text "copy" :: items.map fileUri).getLast? ≠ some [] := by
      intro hnil
      rcases mem_cons.mp (mem_of_getLast? hnil) with hcopy | huri
      · exact absurd hcopy (by decide)
      · obtain ⟨p, -, hp⟩ := mem_map.mp huri
        exact append_ne_nil_of_left_ne_nil (by decide) _ hp
    have hcopy : parseLines true (text "copy" :: items.map fileUri) = parseLines false (items.map fileUri) := rfl
    simp only [hpieces]
    rw [if_neg hlast, hcopy]
    have hall := parseLines_uris h [] (fun p => by
      rw [append_nil, withoutReturn_of_not_mem (fileUri_line p).2]) false
    simpa only [append_nil] using hall
  · rw [if_neg hmime]
    have hpieces : (items.flatMap fun item => fileUri item ++ text "\r\n").splitOn newline =
        (items.map fun item => fileUri item ++ [carriageReturn]) ++ [[]] := by
      rw [← splitOn_ended, flatMap_map]
      · simp only [append_assoc]
        rfl
      · intro l hl
        obtain ⟨p, -, rfl⟩ := mem_map.mp hl
        rw [mem_append, not_or]
        exact ⟨(fileUri_line p).1, by decide⟩
    simp only [hpieces]
    rw [if_pos getLast?_concat, dropLast_concat]
    exact parseLines_uris h [carriageReturn] (fun p => withoutReturn_append (fileUri p)) true

/-- Paths that imitate an escape, the first line of the other form, a comment and another line. -/
def awkward : List Text := [text "/a%00b", text "/copy", text "/#x\nfile:///etc", slash :: [0xFF, 0xFE, 0x0D]]

theorem parse_stagedUris_awkward :
    parseUriList (ClipboardBridge.stagedUris { fileUri := fileUri } awkward gnomeFilesMime) = awkward ∧
      splitClientName (text "dir\\sub\\file.txt") = .ok [text "dir", text "sub", text "file.txt"] := by
  constructor
  · exact parse_stagedUris.1 {} gnomeFilesMime awkward (by unfold Absolute; decide)
  · rw [parse_stagedUris.2]
    refine ⟨⟨by decide, by decide, ?_⟩, by decide⟩
    simp only [forall_mem_cons]
    refine ⟨⟨⟨?_, ?_, ?_, ?_, ?_⟩, ?_⟩, ⟨⟨?_, ?_, ?_, ?_, ?_⟩, ?_⟩, ⟨⟨?_, ?_, ?_, ?_, ?_⟩, ?_⟩, by simp⟩ <;>
      first
        | exact forall_of_all (by decide)
        | decide

end ClipboardFiles
end Clipboard
end Farland
