/-
# Clipboard text and HTML

Conversions between the clipboard formats of Windows and the MIME types of a
desktop (`channels/clipboard_formats.cpp`): text with its line ends, and HTML
with the header that says where the document and the fragment are. Positions
in a text are counted in bytes.

Key theorems: `crlfToLf_withCrlf`, `conversions_wellFormed`,
`htmlToCfHtml_sound`, `conversions_keep_content`.
-/
import Mathlib.Data.List.DropRight
import Farland.Base.Unicode

namespace Farland
namespace Channels
namespace ClipboardFormats

open List WellFormed

variable {i : ℕ} {document s haystack needle : Text} {c : UInt8}

/-! ### Line ends -/

def cr : UInt8 := 0x0D
def lf : UInt8 := 0x0A

def crlfToLf : Text → Text
  | [] => []
  | [c] => [c]
  | c :: d :: rest => if c = cr ∧ d = lf then crlfToLf (d :: rest) else c :: crlfToLf (d :: rest)

/-- A carriage return in front of every line feed that has none; `previous` is
the character before. -/
def withCrlf (previous : Option UInt8) : Text → Text
  | [] => []
  | c :: rest => (if c = lf ∧ previous ≠ some cr then [cr, c] else [c]) ++ withCrlf (some c) rest

/-! ### Text -/

/-- Windows-1252 0x80-0x9F; 0 where the code page leaves a byte undefined. -/
def cp1252High : List ℕ :=
  [0x20AC, 0, 0x201A, 0x0192, 0x201E, 0x2026, 0x2020, 0x2021, 0x02C6, 0x2030, 0x0160, 0x2039, 0x0152, 0, 0x017D, 0, 0,
    0x2018, 0x2019, 0x201C, 0x201D, 0x2022, 0x2013, 0x2014, 0x02DC, 0x2122, 0x0161, 0x203A, 0x0153, 0, 0x017E, 0x0178]

/-- `append_utf8` of code points below 0x10000. -/
def appendUtf8 (cp : ℕ) : Text :=
  if cp < 0x80 then [UInt8.ofNat cp]
  else if cp < 0x800 then [UInt8.ofNat (0xC0 ||| cp >>> 6), UInt8.ofNat (0x80 ||| cp &&& 0x3F)]
  else [UInt8.ofNat (0xE0 ||| cp >>> 12), UInt8.ofNat (0x80 ||| cp >>> 6 &&& 0x3F), UInt8.ofNat (0x80 ||| cp &&& 0x3F)]

def utf8ToUnicodeText (content : Text) : List UInt8 := utf8ToUtf16le (withCrlf none content) ++ [0, 0]

variable (data : List UInt8)

def unicodeTextToUtf8 : Text := crlfToLf (utf16leToUtf8 data)

/-- One byte of Windows-1252. -/
def ansiChar (c : UInt8) : Text :=
  if 0x80 ≤ c ∧ c < 0xA0 then
    let mapped := cp1252High.getD (c.toNat - 0x80) 0
    appendUtf8 (if mapped ≠ 0 then mapped else 0xFFFD)
  else appendUtf8 c.toNat

def ansiTextToUtf8 : Text := crlfToLf ((data.takeWhile (· != 0)).flatMap ansiChar)

/-- Big-endian units, the other way round. -/
def swapPairs : List UInt8 → List UInt8
  | a :: b :: rest => b :: a :: swapPairs rest
  | rest => rest

def localTextToUtf8 : Text :=
  if [0xFF, 0xFE].isPrefixOf data then utf16leToUtf8 (data.drop 2)
  else if [0xFE, 0xFF].isPrefixOf data then
    utf16leToUtf8 (swapPairs ((data.take (data.length - data.length % 2)).drop 2))
  else
    let data := if [0xEF, 0xBB, 0xBF].isPrefixOf data then data.drop 3 else data
    utf16leToUtf8 (utf8ToUtf16le data)

/-! ### Searching -/

/-- `std::tolower`, of ASCII. -/
def lower (c : UInt8) : UInt8 := if 0x41 ≤ c ∧ c ≤ 0x5A then c + 0x20 else c

/-- `needle` stands at `i`, in any case. -/
def matchesAt (haystack needle : Text) (i : ℕ) : Bool := (needle.map lower).isPrefixOf ((haystack.drop i).map lower)

/-- The first position of a `needle` that is not empty. -/
def findAscii (haystack needle : Text) : Option ℕ := (List.range haystack.length).find? (matchesAt haystack needle)

/-- The last position below `count` of a `needle`. -/
def findLastBelow (haystack needle : Text) : ℕ → Option ℕ
  | 0 => none
  | count + 1 => if matchesAt haystack needle count then some count else findLastBelow haystack needle count

/-- The last position. -/
def findAsciiFromEnd (haystack needle : Text) : Option ℕ := findLastBelow haystack needle haystack.length

/-- The first `c` at or behind `start`. -/
def findByte (haystack : Text) (c : UInt8) (start : ℕ) : Option ℕ :=
  ((haystack.drop start).findIdx? (· == c)).map (start + ·)

/-! ### The header of CF_HTML -/

def colon : UInt8 := 0x3A

def isEol (c : UInt8) : Bool := c == cr || c == lf

/-- The digits of `value`, behind `number`. -/
def decimal : ℕ → Text → Option ℕ
  | number, [] => some number
  | number, c :: rest => if c < 0x30 ∨ 0x39 < c then none else decimal (number * 10 + (c.toNat - 0x30)) rest

/-- What stands behind the colon; only StartHTML may be -1. -/
def numberOf (value : Text) : Option ℤ :=
  if value = text "-1" then some (-1)
  else if value = [] ∨ value.length > 10 then none
  else (decimal 0 value).map Int.ofNat

/-- The value of the first line "key:NNN". -/
def headerNumber (header key : Text) : Option ℤ :=
  match (header.splitOnP isEol).find? fun line => (key ++ [colon]).isPrefixOf line with
  | none => none
  | some line => numberOf (line.drop (key.length + 1))

/-- The `count` last digits of `n`. -/
def lastDigits : ℕ → ℕ → Text
  | 0, _ => []
  | count + 1, n => lastDigits count (n / 10) ++ [UInt8.ofNat (0x30 + n % 10)]

/-- `{:010}`. -/
def tenDigits (n : ℕ) : Text :=
  if n < 10 ^ 10 then lastDigits 10 n else lastDigits (Nat.toDigits 10 n).length n

def cfHtmlHeader (startHtml endHtml startFragment endFragment : ℕ) : Text :=
  text "Version:0.9\r\nStartHTML:" ++ tenDigits startHtml ++ text "\r\nEndHTML:" ++ tenDigits endHtml ++
    text "\r\nStartFragment:" ++ tenDigits startFragment ++ text "\r\nEndFragment:" ++ tenDigits endFragment ++
    text "\r\n"

/-! ### HTML -/

def startMarker : Text := text "<!--StartFragment-->"
def endMarker : Text := text "<!--EndFragment-->"

/-- How a document is written: in tags of its own, around the marked fragment. -/
structure Parts where
  opening : Text := []
  before : Text := []
  fragment : Text
  after : Text := []
  closing : Text := []
  deriving DecidableEq

/-- The document with its fragment marked. -/
def Parts.marked (p : Parts) : Text :=
  p.opening ++ p.before ++ startMarker ++ p.fragment ++ endMarker ++ p.after ++ p.closing

/-- A document without a body, as the body of another. -/
def wrapped (document : Text) : Parts :=
  { opening := text "<html><body>", fragment := document, closing := text "</body></html>" }

def htmlParts (document : Text) : Parts :=
  match findAscii document (text "<body") with
  | none => wrapped document
  | some body =>
    match findByte document 0x3E body, findAsciiFromEnd document (text "</body") with
    | some bodyEnd, some bodyClose =>
      if bodyClose > bodyEnd then
        { before := document.take (bodyEnd + 1)
          fragment := (document.drop (bodyEnd + 1)).take (bodyClose - bodyEnd - 1)
          after := document.drop bodyClose }
      else wrapped document
    | _, _ => wrapped document

def htmlToCfHtml (html : List UInt8) : List UInt8 :=
  let p := htmlParts (localTextToUtf8 html)
  let startHtml := (cfHtmlHeader 0 0 0 0).length
  let startFragment := startHtml + p.opening.length + p.before.length + startMarker.length
  let endFragment := startFragment + p.fragment.length
  let endHtml := endFragment + endMarker.length + p.after.length + p.closing.length
  cfHtmlHeader startHtml endHtml startFragment endFragment ++ p.marked ++ [0]

/-- The bytes between two offsets, if they are in order and inside. -/
def range (content : Text) (first last : Option ℤ) : Option Text :=
  match first, last with
  | some first, some last =>
    if first < 0 ∨ first > last ∨ last > content.length then none
    else some ((content.drop first.toNat).take (last - first).toNat)
  | _, _ => none

def charsetMeta : Text := text "<meta http-equiv=\"content-type\" content=\"text/html; charset=utf-8\">"

def cfHtmlToHtml : Result Text :=
  let header := data.take 1024
  let startHtml := headerNumber header (text "StartHTML")
  let endHtml := headerNumber header (text "EndHTML")
  let startFragment := headerNumber header (text "StartFragment")
  let endFragment := headerNumber header (text "EndFragment")
  let document := range data startHtml endHtml
  let document :=
    if document.isNone ∧ (startHtml.isNone ∨ startHtml = some (-1)) then range data startFragment endFragment
    else document
  match document with
  | none => fail .invalidValue "HTML Format data without valid offsets"
  | some body =>
    let html := localTextToUtf8 (body.rdropWhile (· == 0))
    .ok (if (findAscii (html.take 1024) (text "charset")).isNone then charsetMeta ++ html else html)

/-! ### Line ends come back -/

theorem crlfToLf_cons {rest : Text} (h : ¬ (c = cr ∧ rest.head? = some lf)) :
    crlfToLf (c :: rest) = c :: crlfToLf rest := by
  cases rest with
  | nil => rfl
  | cons d rest =>
    rw [crlfToLf]
    simpa using h

theorem crlfToLf_pair (rest : Text) : crlfToLf (cr :: lf :: rest) = crlfToLf (lf :: rest) := by
  rw [crlfToLf, if_pos ⟨rfl, rfl⟩]

/-- **Line ends come back**: the inserted carriage returns are taken out again. -/
theorem crlfToLf_withCrlf (content : Text) : ∀ previous, crlfToLf (withCrlf previous content) = crlfToLf content := by
  induction content with
  | nil => exact fun _ => rfl
  | cons c rest ih =>
    intro previous
    have hkept : crlfToLf (c :: withCrlf (some c) rest) = crlfToLf (c :: rest) := by
      by_cases hpair : c = cr ∧ rest.head? = some lf
      · obtain ⟨rfl, hhead⟩ := hpair
        obtain ⟨tail, rfl⟩ : ∃ tail, rest = lf :: tail := by
          cases rest with
          | nil => cases hhead
          | cons d tail => exact ⟨tail, by rw [Option.some.inj hhead]⟩
        have hinner : withCrlf (some cr) (lf :: tail) = lf :: withCrlf (some lf) tail := rfl
        rw [hinner, crlfToLf_pair, crlfToLf_pair, ← hinner, ih]
      · rw [crlfToLf_cons hpair, crlfToLf_cons, ih]
        rintro ⟨rfl, hhead⟩
        refine hpair ⟨rfl, ?_⟩
        cases rest with
        | nil => cases hhead
        | cons d tail =>
          by_cases hd : d = lf
          · rw [hd]
            rfl
          · rw [withCrlf, if_neg (fun h => hd h.1)] at hhead
            exact hhead
    unfold withCrlf
    split_ifs with hinsert
    · obtain ⟨rfl, -⟩ := hinsert
      exact (crlfToLf_pair _).trans hkept
    · exact hkept

/-! ### Well-formed text -/

theorem crlfToLf_append {xs : Text} (h : cr ∉ xs) (rest : Text) : crlfToLf (xs ++ rest) = xs ++ crlfToLf rest := by
  induction xs with
  | nil => rfl
  | cons x xs ih =>
    rw [mem_cons, not_or] at h
    rw [cons_append, crlfToLf_cons (fun hx => h.1 hx.1.symm), ih h.2, cons_append]

theorem crlfToLf_wellFormed (h : WellFormed s) : WellFormed (crlfToLf s) := by
  obtain ⟨cs, rfl⟩ := h
  induction cs with
  | nil => exact nil
  | cons c cs ih =>
    rw [utf8_cons]
    by_cases hcr : cr ∈ utf8Of c.toNat
    · have hone := mem_utf8Of (by decide) hcr
      have hchar := of_char c
      rw [hone] at hchar ⊢
      by_cases hpair : (utf8 cs).head? = some lf
      · obtain ⟨tail, htail⟩ : ∃ tail, utf8 cs = lf :: tail := by
          cases hcs : utf8 cs with
          | nil =>
            rw [hcs] at hpair
            cases hpair
          | cons d tail =>
            rw [hcs] at hpair
            exact ⟨tail, by rw [Option.some.inj hpair]⟩
        rw [htail] at ih ⊢
        rwa [singleton_append]
      · rw [singleton_append, crlfToLf_cons (fun hx => hpair hx.2)]
        exact hchar.append ih
    · rw [crlfToLf_append hcr]
      exact (of_char c).append ih

theorem withCrlf_append {xs : Text} (h : lf ∉ xs) (rest : Text) (previous : Option UInt8) :
    ∃ last, withCrlf previous (xs ++ rest) = xs ++ withCrlf last rest := by
  induction xs generalizing previous with
  | nil => exact ⟨previous, rfl⟩
  | cons x xs ih =>
    rw [mem_cons, not_or] at h
    obtain ⟨last, hlast⟩ := ih h.2 (some x)
    refine ⟨last, ?_⟩
    rw [cons_append, withCrlf, if_neg (fun hx => h.1 hx.1.symm), hlast]
    rfl

theorem withCrlf_wellFormed (h : WellFormed s) (previous : Option UInt8) :
    WellFormed (withCrlf previous s) := by
  obtain ⟨cs, rfl⟩ := h
  induction cs generalizing previous with
  | nil => exact nil
  | cons c cs ih =>
    rw [utf8_cons]
    by_cases hlf : lf ∈ utf8Of c.toNat
    · have hone := mem_utf8Of (by decide) hlf
      rw [hone]
      refine append (wellFormed_ascii ?_) (ih (some lf))
      split_ifs <;> exact forall_of_all (by decide)
    · obtain ⟨last, hlast⟩ := withCrlf_append hlf (utf8 cs) previous
      rw [hlast]
      exact (of_char c).append (ih last)

theorem mem_withCrlf {b : UInt8} : ∀ {previous}, b ∈ withCrlf previous s → b = cr ∨ b ∈ s := by
  induction s with
  | nil => exact fun h => absurd h not_mem_nil
  | cons c s ih =>
    intro previous h
    unfold withCrlf at h
    rcases mem_append.mp h with h | h
    · split_ifs at h
      · simp only [mem_cons, not_mem_nil, or_false] at h
        rcases h with h | h
        · exact Or.inl h
        · exact Or.inr (h ▸ mem_cons_self)
      · rw [mem_singleton] at h
        exact Or.inr (h ▸ mem_cons_self)
    · rcases ih h with h | h
      · exact Or.inl h
      · exact Or.inr (mem_cons_of_mem _ h)

/-- **Text survives the client's clipboard**, but for its line ends. -/
theorem unicodeText_roundTrip {t : Text} (h : WellFormed t) (h0 : 0 ∉ t) :
    unicodeTextToUtf8 (utf8ToUnicodeText t) = crlfToLf t := by
  obtain ⟨cs, hcs⟩ := withCrlf_wellFormed h none
  have hnul : NulFree cs := by
    rw [← nulFree_iff, ← hcs]
    intro hmem
    rcases mem_withCrlf hmem with hcr | hmem
    · exact absurd hcr (by decide)
    · exact h0 hmem
  unfold unicodeTextToUtf8 utf8ToUnicodeText
  rw [hcs, utf8ToUtf16le_utf8, utf16leToUtf8_terminated hnul, ← hcs, crlfToLf_withCrlf]

theorem appendUtf8_eq {cp : ℕ} (h : cp < 0x10000) : appendUtf8 cp = utf8Of cp := by
  unfold appendUtf8 utf8Of
  simp only [if_pos h]

theorem cp1252High_lt : ∀ i < 32, cp1252High.getD i 0 < 0xD800 := by decide

theorem ansiChar_wellFormed (c : UInt8) : WellFormed (ansiChar c) := by
  have hchar {cp : ℕ} (h : cp < 0xD800 ∨ cp = 0xFFFD) : WellFormed (appendUtf8 cp) := by
    obtain ⟨d, rfl⟩ := exists_char (v := cp) (by omega)
    rw [appendUtf8_eq (by omega)]
    exact of_char d
  have hc := c.toNat_lt
  unfold ansiChar
  by_cases hhigh : 0x80 ≤ c ∧ c < 0xA0
  · rw [if_pos hhigh]
    have hindex : c.toNat - 0x80 < 32 := by
      have hlt : c.toNat < 0xA0 := hhigh.2
      omega
    have hmapped := cp1252High_lt _ hindex
    apply hchar
    split_ifs
    · exact Or.inl hmapped
    · exact Or.inr rfl
  · rw [if_neg hhigh]
    exact hchar (Or.inl (by omega))

theorem localTextToUtf8_wellFormed : ∃ cs, localTextToUtf8 data = utf8 cs ∧ NulFree cs := by
  unfold localTextToUtf8
  by_cases hlittle : [0xFF, 0xFE].isPrefixOf data = true
  · rw [if_pos hlittle]
    exact utf16leToUtf8_wellFormed _
  rw [if_neg hlittle]
  by_cases hbig : [0xFE, 0xFF].isPrefixOf data = true
  · rw [if_pos hbig]
    exact utf16leToUtf8_wellFormed _
  rw [if_neg hbig]
  exact utf16leToUtf8_wellFormed _

theorem cfHtmlToHtml_wellFormed {data : List UInt8} {html : Text} (h : cfHtmlToHtml data = .ok html) :
    WellFormed html := by
  unfold cfHtmlToHtml at h
  simp only at h
  split at h
  · cases h
  · rename_i body _
    obtain ⟨cs, hcs, -⟩ := localTextToUtf8_wellFormed (body.rdropWhile (· == 0))
    cases h
    rw [hcs]
    split_ifs
    · exact (text_wellFormed _).append ⟨cs, rfl⟩
    · exact ⟨cs, rfl⟩

/-- **Whatever bytes are converted**, the text is well formed. -/
theorem conversions_wellFormed :
    WellFormed (unicodeTextToUtf8 data) ∧ WellFormed (ansiTextToUtf8 data) ∧ WellFormed (localTextToUtf8 data) ∧
      ∀ html, cfHtmlToHtml data = .ok html → WellFormed html := by
  obtain ⟨cs, hunicode, -⟩ := utf16leToUtf8_wellFormed data
  obtain ⟨ds, hlocal, -⟩ := localTextToUtf8_wellFormed data
  refine ⟨?_, ?_, ⟨ds, hlocal⟩, fun _ => cfHtmlToHtml_wellFormed⟩
  · exact crlfToLf_wellFormed ⟨cs, hunicode⟩
  · exact crlfToLf_wellFormed (flatMap_wellFormed ansiChar_wellFormed _)

/-! ### Reading the header -/

theorem decimal_append (xs ys : Text) : ∀ a, decimal a (xs ++ ys) = (decimal a xs).bind fun b => decimal b ys := by
  induction xs with
  | nil => exact fun _ => rfl
  | cons c xs ih =>
    intro a
    rw [cons_append, decimal, decimal]
    split_ifs
    · rfl
    · exact ih _

theorem digit_facts : ∀ d < 10, (UInt8.ofNat (0x30 + d)).toNat = 0x30 + d ∧
    ¬ (UInt8.ofNat (0x30 + d) < 0x30 ∨ 0x39 < UInt8.ofNat (0x30 + d)) := by decide

theorem decimal_lastDigits (count : ℕ) : ∀ n a,
    decimal a (lastDigits count n) = some (a * 10 ^ count + n % 10 ^ count) := by
  induction count with
  | zero =>
    intro n a
    simp [lastDigits, decimal, Nat.mod_one]
  | succ count ih =>
    intro n a
    obtain ⟨hvalue, hdigit⟩ := digit_facts (n % 10) (Nat.mod_lt n (by decide))
    have hmod : n % 10 ^ (count + 1) = n / 10 % 10 ^ count * 10 + n % 10 := by
      rw [pow_succ', Nat.mod_mul]
      omega
    rw [lastDigits, decimal_append, ih, Option.bind_some, decimal, if_neg hdigit, decimal, hvalue, hmod]
    rw [Nat.add_sub_cancel_left]
    ring_nf

theorem lastDigits_length (count : ℕ) : ∀ n, (lastDigits count n).length = count := by
  induction count with
  | zero => exact fun _ => rfl
  | succ count ih =>
    intro n
    rw [lastDigits, length_append, ih, length_singleton]

theorem isEol_lastDigits (count : ℕ) : ∀ n, ∀ c ∈ lastDigits count n, isEol c = false := by
  have hdigit : ∀ d < 10, isEol (UInt8.ofNat (0x30 + d)) = false := by decide
  induction count with
  | zero => exact fun _ _ hc => absurd hc not_mem_nil
  | succ count ih =>
    intro n c hc
    rcases mem_append.mp hc with hc | hc
    · exact ih _ c hc
    · rw [mem_singleton] at hc
      exact hc ▸ hdigit _ (Nat.mod_lt n (by decide))

/-- A line of the header. -/
def headerLine (key : Text) (n : ℕ) : Text := key ++ colon :: lastDigits 10 n

theorem cfHtmlHeader_eq {a b c d : ℕ} (ha : a < 10 ^ 10) (hb : b < 10 ^ 10) (hc : c < 10 ^ 10) (hd : d < 10 ^ 10) :
    cfHtmlHeader a b c d = text "Version:0.9" ++ cr :: lf :: (headerLine (text "StartHTML") a ++ cr :: lf ::
      (headerLine (text "EndHTML") b ++ cr :: lf :: (headerLine (text "StartFragment") c ++ cr :: lf ::
        (headerLine (text "EndFragment") d ++ [cr, lf])))) := by
  have h1 : text "Version:0.9\r\nStartHTML:" = text "Version:0.9" ++ cr :: lf :: (text "StartHTML" ++ [colon]) := by
    decide
  have h2 : text "\r\nEndHTML:" = cr :: lf :: (text "EndHTML" ++ [colon]) := by decide
  have h3 : text "\r\nStartFragment:" = cr :: lf :: (text "StartFragment" ++ [colon]) := by decide
  have h4 : text "\r\nEndFragment:" = cr :: lf :: (text "EndFragment" ++ [colon]) := by decide
  have h5 : text "\r\n" = [cr, lf] := by decide
  unfold cfHtmlHeader headerLine tenDigits
  rw [if_pos ha, if_pos hb, if_pos hc, if_pos hd, h1, h2, h3, h4, h5]
  simp only [append_assoc, cons_append, nil_append]

theorem cfHtmlHeader_length {a b c d : ℕ} (ha : a < 10 ^ 10) (hb : b < 10 ^ 10) (hc : c < 10 ^ 10) (hd : d < 10 ^ 10) :
    (cfHtmlHeader a b c d).length = 105 := by
  rw [cfHtmlHeader_eq ha hb hc hd]
  simp only [headerLine, length_append, length_cons, lastDigits_length]
  decide

/-- The first line of what is left, found or passed over. -/
theorem headerNumber_line {line : Text} (h : ∀ c ∈ line, isEol c = false) (rest key : Text) :
    headerNumber (line ++ cr :: lf :: rest) key =
      if (key ++ [colon]).isPrefixOf line then numberOf (line.drop (key.length + 1)) else headerNumber rest key := by
  have hsplit : (line ++ cr :: lf :: rest).splitOnP isEol = line :: [] :: rest.splitOnP isEol := by
    have hnil : ([] ++ lf :: rest).splitOnP isEol = [] :: rest.splitOnP isEol :=
      splitOnP_append_cons_of_forall_mem (fun _ hx => absurd hx not_mem_nil) lf rfl rest
    rw [splitOnP_append_cons_of_forall_mem h cr rfl]
    exact congrArg (line :: ·) hnil
  have hempty : (key ++ [colon]).isPrefixOf [] = false := by
    cases key <;> rfl
  unfold headerNumber
  rw [hsplit, find?_cons, find?_cons, hempty]
  by_cases hkey : (key ++ [colon]).isPrefixOf line = true
  · rw [hkey]
    rfl
  · rw [Bool.not_eq_true] at hkey
    rw [hkey]
    rfl

theorem numberOf_lastDigits {n : ℕ} (h : n < 10 ^ 10) : numberOf (lastDigits 10 n) = some (n : ℤ) := by
  have hlength := lastDigits_length 10 n
  have hminus : lastDigits 10 n ≠ text "-1" := by
    intro heq
    rw [heq] at hlength
    exact absurd hlength (by decide)
  have hlong : ¬ (lastDigits 10 n = [] ∨ (lastDigits 10 n).length > 10) := by
    rintro (heq | hgt)
    · rw [heq] at hlength
      cases hlength
    · omega
  unfold numberOf
  rw [if_neg hminus, if_neg hlong, decimal_lastDigits, Nat.zero_mul, Nat.zero_add, Nat.mod_eq_of_lt h]
  rfl

theorem isEol_headerLine {key : Text} (h : ∀ c ∈ key, isEol c = false) (n : ℕ) :
    ∀ c ∈ headerLine key n, isEol c = false := by
  intro c hc
  rcases mem_append.mp hc with hc | hc
  · exact h c hc
  rcases mem_cons.mp hc with rfl | hc
  · rfl
  · exact isEol_lastDigits 10 n c hc

theorem headerNumber_found {key : Text} (h : ∀ c ∈ key, isEol c = false) {n : ℕ} (hn : n < 10 ^ 10) (rest : Text) :
    headerNumber (headerLine key n ++ cr :: lf :: rest) key = some (n : ℤ) := by
  have hline : headerLine key n = (key ++ [colon]) ++ lastDigits 10 n := by
    rw [append_assoc]
    rfl
  have hstart : (key ++ [colon]).isPrefixOf (headerLine key n) = true := by
    rw [hline]
    exact isPrefixOf_iff_prefix.mpr (prefix_append _ _)
  have hdrop : (headerLine key n).drop (key.length + 1) = lastDigits 10 n := by
    rw [hline]
    exact drop_left' (by rw [length_append, length_singleton])
  rw [headerNumber_line (isEol_headerLine h n), if_pos hstart, hdrop, numberOf_lastDigits hn]

theorem headerNumber_passed {line key : Text} (h : ∀ c ∈ line, isEol c = false)
    (hkey : (key ++ [colon]).isPrefixOf line = false) (rest : Text) :
    headerNumber (line ++ cr :: lf :: rest) key = headerNumber rest key := by
  rw [headerNumber_line h, hkey]
  rfl

/-- **The header says what was put into it**, whatever stands behind it. -/
theorem headerNumbers {a b c d : ℕ} (ha : a < 10 ^ 10) (hb : b < 10 ^ 10) (hc : c < 10 ^ 10) (hd : d < 10 ^ 10)
    (rest : Text) :
    headerNumber (cfHtmlHeader a b c d ++ rest) (text "StartHTML") = some (a : ℤ) ∧
      headerNumber (cfHtmlHeader a b c d ++ rest) (text "EndHTML") = some (b : ℤ) ∧
      headerNumber (cfHtmlHeader a b c d ++ rest) (text "StartFragment") = some (c : ℤ) ∧
      headerNumber (cfHtmlHeader a b c d ++ rest) (text "EndFragment") = some (d : ℤ) := by
  have hversion : ∀ c ∈ text "Version:0.9", isEol c = false := forall_of_all (by decide)
  have hstart : ∀ c ∈ text "StartHTML", isEol c = false := forall_of_all (by decide)
  have hend : ∀ c ∈ text "EndHTML", isEol c = false := forall_of_all (by decide)
  have hstartFragment : ∀ c ∈ text "StartFragment", isEol c = false := forall_of_all (by decide)
  have hendFragment : ∀ c ∈ text "EndFragment", isEol c = false := forall_of_all (by decide)
  rw [cfHtmlHeader_eq ha hb hc hd]
  simp only [append_assoc, cons_append]
  refine ⟨?_, ?_, ?_, ?_⟩
  · rw [headerNumber_passed hversion rfl, headerNumber_found hstart ha]
  · rw [headerNumber_passed hversion rfl, headerNumber_passed (isEol_headerLine hstart a) rfl,
      headerNumber_found hend hb]
  · rw [headerNumber_passed hversion rfl, headerNumber_passed (isEol_headerLine hstart a) rfl,
      headerNumber_passed (isEol_headerLine hend b) rfl, headerNumber_found hstartFragment hc]
  · rw [headerNumber_passed hversion rfl, headerNumber_passed (isEol_headerLine hstart a) rfl,
      headerNumber_passed (isEol_headerLine hend b) rfl,
      headerNumber_passed (isEol_headerLine hstartFragment c) rfl, headerNumber_found hendFragment hd]

/-! ### The body of a document -/

theorem findAscii_eq_some : findAscii haystack needle = some i ↔
    i < haystack.length ∧ matchesAt haystack needle i = true ∧ ∀ j < i, matchesAt haystack needle j = false := by
  unfold findAscii
  rw [find?_range_eq_some, mem_range]
  simp only [Bool.not_eq_true', and_left_comm]

theorem findLastBelow_eq_some : ∀ count,
    findLastBelow haystack needle count = some i ↔
      i < count ∧ matchesAt haystack needle i = true ∧ ∀ j < count, i < j → matchesAt haystack needle j = false
  | 0 => by simp [findLastBelow]
  | count + 1 => by
    unfold findLastBelow
    by_cases hlast : matchesAt haystack needle count = true
    · rw [if_pos hlast, Option.some.injEq]
      constructor
      · rintro rfl
        exact ⟨Nat.lt_succ_self _, hlast, fun j hj hij => by omega⟩
      · rintro ⟨hi, -, hnone⟩
        by_contra hne
        have hmiss := hnone count (Nat.lt_succ_self _) (by omega)
        rw [hlast] at hmiss
        cases hmiss
    · rw [if_neg hlast, findLastBelow_eq_some count]
      constructor
      · rintro ⟨hi, hmatch, hnone⟩
        refine ⟨by omega, hmatch, fun j hj hij => ?_⟩
        rcases Nat.lt_succ_iff_lt_or_eq.mp hj with hj | rfl
        · exact hnone j hj hij
        · exact Bool.not_eq_true _ ▸ hlast
      · rintro ⟨hi, hmatch, hnone⟩
        refine ⟨?_, hmatch, fun j hj hij => hnone j (by omega) hij⟩
        rcases Nat.lt_succ_iff_lt_or_eq.mp hi with hi | rfl
        · exact hi
        · exact (hlast hmatch).elim

theorem findByte_eq_some {start : ℕ} : findByte haystack c start = some i ↔
    start ≤ i ∧ haystack[i]? = some c ∧ ∀ j < i, start ≤ j → haystack[j]? ≠ some c := by
  unfold findByte
  rw [Option.map_eq_some_iff]
  constructor
  · rintro ⟨k, hk, rfl⟩
    rw [findIdx?_eq_some_iff_getElem] at hk
    obtain ⟨hlt, hat, hbefore⟩ := hk
    simp only [getElem_drop, beq_iff_eq, length_drop] at hat hbefore hlt
    refine ⟨Nat.le_add_right _ _, List.getElem?_eq_some_iff.mpr ⟨by omega, hat⟩, fun j hj hsj heq => ?_⟩
    obtain ⟨hjlen, hjc⟩ := List.getElem?_eq_some_iff.mp heq
    have hmiss := hbefore (j - start) (by omega)
    simp only [Nat.add_sub_cancel' hsj] at hmiss
    exact hmiss hjc
  · rintro ⟨hle, hat, hbefore⟩
    obtain ⟨hlt, hc⟩ := List.getElem?_eq_some_iff.mp hat
    refine ⟨i - start, ?_, by omega⟩
    rw [findIdx?_eq_some_iff_getElem]
    refine ⟨by rw [length_drop]; omega, ?_, fun j hj => ?_⟩
    · simp only [getElem_drop, beq_iff_eq, Nat.add_sub_cancel' hle, hc]
    · simp only [getElem_drop, beq_iff_eq]
      intro hjc
      exact hbefore (start + j) (by omega) (by omega) (List.getElem?_eq_some_iff.mpr ⟨by omega, hjc⟩)

/-- The document has a body: its first opening tag is at `tag` and ends at
`tagEnd`, and its last closing tag stands behind that, at `close`. -/
structure BodyElement (document : Text) (tag tagEnd close : ℕ) : Prop where
  opened : matchesAt document (text "<body") tag = true
  first : ∀ i < tag, matchesAt document (text "<body") i = false
  ended : tag ≤ tagEnd ∧ document[tagEnd]? = some 0x3E
  soonest : ∀ i < tagEnd, tag ≤ i → document[i]? ≠ some 0x3E
  closed : matchesAt document (text "</body") close = true
  last : ∀ i < document.length, close < i → matchesAt document (text "</body") i = false
  behind : tagEnd < close

theorem matchesAt_lt (hne : needle ≠ []) (h : matchesAt haystack needle i = true) :
    i < haystack.length := by
  by_contra hge
  unfold matchesAt at h
  rw [drop_eq_nil_of_le (not_lt.mp hge), isPrefixOf_iff_prefix] at h
  exact hne (map_eq_nil_iff.mp (prefix_nil.mp h))

theorem bodyElement_iff {tag tagEnd close : ℕ} : BodyElement document tag tagEnd close ↔
    findAscii document (text "<body") = some tag ∧ findByte document 0x3E tag = some tagEnd ∧
      findAsciiFromEnd document (text "</body") = some close ∧ tagEnd < close := by
  unfold findAsciiFromEnd
  rw [findAscii_eq_some, findByte_eq_some, findLastBelow_eq_some]
  constructor
  · intro h
    exact ⟨⟨matchesAt_lt (by decide) h.opened, h.opened, h.first⟩, ⟨h.ended.1, h.ended.2, h.soonest⟩,
      ⟨matchesAt_lt (by decide) h.closed, h.closed, h.last⟩, h.behind⟩
  · rintro ⟨⟨-, h1, h2⟩, ⟨h3, h4, h5⟩, ⟨-, h6, h7⟩, h8⟩
    exact ⟨h1, h2, ⟨h3, h4⟩, h5, h6, h7, h8⟩

/-- A document with a body, marked inside it. -/
def bodyParts (document : Text) (tagEnd close : ℕ) : Parts where
  before := document.take (tagEnd + 1)
  fragment := (document.drop (tagEnd + 1)).take (close - tagEnd - 1)
  after := document.drop close

/-- **A document keeps its body**, and is wrapped when it has none. -/
theorem htmlParts_cases (document : Text) :
    (∃ tag tagEnd close, BodyElement document tag tagEnd close ∧ htmlParts document = bodyParts document tagEnd close) ∨
      (¬ ∃ tag tagEnd close, BodyElement document tag tagEnd close) ∧ htmlParts document = wrapped document := by
  by_cases hbody : ∃ tag tagEnd close, BodyElement document tag tagEnd close
  · obtain ⟨tag, tagEnd, close, h⟩ := hbody
    refine Or.inl ⟨tag, tagEnd, close, h, ?_⟩
    obtain ⟨htag, hend, hclose, hlt⟩ := bodyElement_iff.mp h
    unfold htmlParts
    simp only [htag, hend, hclose, if_pos hlt, bodyParts]
  · refine Or.inr ⟨hbody, ?_⟩
    unfold htmlParts
    split
    · rfl
    · rename_i tag htag
      split
      · rename_i tagEnd close hend hclose
        rw [if_neg]
        exact fun hlt => hbody ⟨tag, tagEnd, close, bodyElement_iff.mpr ⟨htag, hend, hclose, hlt⟩⟩
      · rfl

/-! ### The marked document -/

theorem eq_lt_of_lower (h : lower c = 0x3C) : c = 0x3C := by
  have hall : ∀ n < 256, lower (UInt8.ofNat n) = 0x3C → UInt8.ofNat n = 0x3C := by decide +kernel
  have hc := hall c.toNat c.toNat_lt
  rw [UInt8.ofNat_toNat] at hc
  exact hc h

/-- The bytes of a match, one by one. -/
theorem drop_of_matchesAt
    (h : matchesAt haystack (c :: needle) i = true) :
    ∃ x rest, haystack.drop i = x :: rest ∧ lower x = lower c ∧ matchesAt haystack needle (i + 1) = true := by
  unfold matchesAt at h ⊢
  rw [← drop_drop]
  cases hdrop : haystack.drop i with
  | nil =>
    rw [hdrop] at h
    cases h
  | cons x rest =>
    rw [hdrop, map_cons, map_cons, isPrefixOf_cons_cons, Bool.and_eq_true, beq_iff_eq] at h
    exact ⟨x, rest, rfl, h.1.symm, by simpa using h.2⟩

theorem BodyElement.long {tag tagEnd close : ℕ} (h : BodyElement document tag tagEnd close) :
    2 ≤ tagEnd := by
  have hmatch := h.opened
  obtain ⟨x, rest, hx, hlower, hnext⟩ := drop_of_matchesAt hmatch
  obtain ⟨y, rest', hy, hlowerY, -⟩ := drop_of_matchesAt hnext
  have hat : document[tag]? = some x := by
    rw [← Nat.add_zero tag, ← getElem?_drop, hx]
    rfl
  have hatY : document[tag + 1]? = some y := by
    rw [← Nat.add_zero (tag + 1), ← getElem?_drop, hy]
    rfl
  obtain ⟨hle, hend⟩ := h.ended
  have hne : tagEnd ≠ tag := by
    rintro rfl
    rw [hat, Option.some.injEq] at hend
    rw [hend] at hlower
    exact absurd hlower (by decide)
  have hneY : tagEnd ≠ tag + 1 := by
    rintro rfl
    rw [hatY, Option.some.injEq] at hend
    rw [hend] at hlowerY
    exact absurd hlowerY (by decide)
  omega

/-- What a document is cut into: text each, and together the document. -/
structure Parts.Of (p : Parts) (document : Text) : Prop where
  content : p.before ++ p.fragment ++ p.after = document
  before : WellFormed p.before
  fragment : WellFormed p.fragment
  after : WellFormed p.after
  tags : (p.opening = [] ∧ p.closing = [] ∧ 3 ≤ p.before.length) ∨
    (p.opening = text "<html><body>" ∧ p.closing = text "</body></html>" ∧ p.before = [] ∧ p.after = [])

/-- **A document is cut between characters.** -/
theorem htmlParts_of (hdocument : WellFormed document) : (htmlParts document).Of document := by
  rcases htmlParts_cases document with ⟨tag, tagEnd, close, h, hparts⟩ | ⟨-, hparts⟩
  · rw [hparts]
    obtain ⟨hendlt, hend⟩ := List.getElem?_eq_some_iff.mp h.ended.2
    have hmatch := h.closed
    obtain ⟨x, rest, hclose, hlower, -⟩ := drop_of_matchesAt hmatch
    obtain rfl : x = 0x3C := eq_lt_of_lower (hlower.trans (by decide))
    have hcut : document = document.take tagEnd ++ 0x3E :: document.drop (tagEnd + 1) := by
      rw [← hend, cons_getElem_drop_succ, take_append_drop]
    have hfragment : document.drop (tagEnd + 1) =
        (document.drop (tagEnd + 1)).take (close - tagEnd - 1) ++ document.drop close := by
      have hsum : tagEnd + 1 + (close - tagEnd - 1) = close := by
        have hbehind := h.behind
        omega
      have hdrop : document.drop close = (document.drop (tagEnd + 1)).drop (close - tagEnd - 1) := by
        rw [drop_drop, hsum]
      rw [hdrop, take_append_drop]
    have hbefore : document.take (tagEnd + 1) = document.take tagEnd ++ [0x3E] := by
      rw [take_succ_eq_append_getElem hendlt, hend]
    have hdoc := hdocument
    rw [hcut] at hdoc
    obtain ⟨hfront, hback⟩ := wellFormed_of_append (by decide) hdoc
    rw [hfragment, hclose] at hback
    obtain ⟨hinside, hrest⟩ := wellFormed_of_append (by decide) hback
    refine ⟨?_, ?_, hinside, ?_, Or.inl ⟨rfl, rfl, ?_⟩⟩
    · change document.take (tagEnd + 1) ++ _ ++ document.drop close = document
      rw [append_assoc]
      exact (congrArg (document.take (tagEnd + 1) ++ ·) hfragment.symm).trans (take_append_drop _ _)
    · change WellFormed (document.take (tagEnd + 1))
      rw [hbefore]
      exact hfront.append (wellFormed_ascii (forall_of_all (by decide)))
    · change WellFormed (document.drop close)
      rw [hclose]
      exact append (wellFormed_ascii (s := [0x3C]) (forall_of_all (by decide))) hrest
    · have hlong := h.long
      change 3 ≤ (document.take (tagEnd + 1)).length
      rw [length_take]
      omega
  · rw [hparts]
    exact ⟨append_nil _, nil, hdocument, nil, Or.inr ⟨rfl, rfl, rfl, rfl⟩⟩

/-- A UTF-8 byte order mark. -/
def byteOrderMark : Text := [0xEF, 0xBB, 0xBF]

theorem isPrefixOf_false {cs : Text} (h : ∀ b ∈ s, b ≠ c) : (c :: cs).isPrefixOf s = false := by
  cases s with
  | nil => rfl
  | cons b s =>
    have hb : (c == b) = false := beq_eq_false_iff_ne.mpr (Ne.symm (h b mem_cons_self))
    rw [isPrefixOf_cons_cons, hb, Bool.false_and]

/-- **Local text that is UTF-8 already** is taken as it is. -/
theorem localTextToUtf8_utf8 (h : WellFormed s) (h0 : 0 ∉ s) (hmark : byteOrderMark.isPrefixOf s = false) :
    localTextToUtf8 s = s := by
  have hhigh {c : UInt8} (hc : 0xF8 ≤ c.toNat) : ∀ b ∈ s, b ≠ c := by
    rintro b hb rfl
    exact absurd (h.lt b hb) (not_lt.mpr hc)
  unfold localTextToUtf8
  rw [isPrefixOf_false (hhigh (by decide)), isPrefixOf_false (hhigh (by decide))]
  rw [show [0xEF, 0xBB, 0xBF].isPrefixOf s = false from hmark]
  simp only [Bool.false_eq_true, if_false]
  obtain ⟨cs, rfl⟩ := h
  rw [utf8ToUtf16le_utf8, utf16leToUtf8_utf16 (nulFree_iff.mp h0)]

theorem Parts.Of.marked_wellFormed {p : Parts} (h : p.Of document) : WellFormed p.marked := by
  have htags : WellFormed p.opening ∧ WellFormed p.closing := by
    rcases h.tags with ⟨ho, hc, -⟩ | ⟨ho, hc, -⟩
    · rw [ho, hc]
      exact ⟨nil, nil⟩
    · rw [ho, hc]
      exact ⟨text_wellFormed _, text_wellFormed _⟩
  have hmarkers : WellFormed startMarker ∧ WellFormed endMarker := ⟨text_wellFormed _, text_wellFormed _⟩
  exact (((((htags.1.append h.before).append hmarkers.1).append h.fragment).append hmarkers.2).append h.after).append
    htags.2

theorem Parts.Of.marked_nulFree {p : Parts} (h : p.Of document) (h0 : 0 ∉ document) :
    0 ∉ p.marked := by
  have htags : 0 ∉ p.opening ∧ 0 ∉ p.closing := by
    rcases h.tags with ⟨ho, hc, -⟩ | ⟨ho, hc, -⟩
    · rw [ho, hc]
      exact ⟨not_mem_nil, not_mem_nil⟩
    · rw [ho, hc]
      exact ⟨by decide, by decide⟩
  have hmarkers : 0 ∉ startMarker ∧ 0 ∉ endMarker := by decide
  rw [← h.content] at h0
  simp only [mem_append, not_or] at h0
  simp only [Parts.marked, mem_append, not_or]
  exact ⟨⟨⟨⟨⟨⟨htags.1, h0.1.1⟩, hmarkers.1⟩, h0.1.2⟩, hmarkers.2⟩, h0.2⟩, htags.2⟩

/-- The marked document starts with a byte order mark only if the document does. -/
theorem Parts.Of.marked_mark {p : Parts} (h : p.Of document)
    (hmark : byteOrderMark.isPrefixOf document = false) : byteOrderMark.isPrefixOf p.marked = false := by
  rcases h.tags with ⟨ho, -, hlong⟩ | ⟨ho, -, hb, -⟩
  · by_contra hmarked
    rw [Bool.not_eq_false, isPrefixOf_iff_prefix] at hmarked
    have hbefore : p.before <+: p.marked := by
      unfold Parts.marked
      rw [ho]
      simp only [append_assoc]
      exact prefix_append _ _
    have hshort : byteOrderMark <+: p.before := prefix_of_prefix_length_le hmarked hbefore hlong
    have hdocument : p.before <+: document := by
      rw [← h.content, append_assoc]
      exact prefix_append _ _
    rw [ isPrefixOf_iff_prefix.mpr (hshort.trans hdocument)] at hmark
    cases hmark
  · unfold Parts.marked
    rw [ho, hb]
    rfl

/-! ### The header and the document -/

/-- Two numbers of the header delimit `part`. -/
def Delimits (first last part : Text) : Prop :=
  ∃ i j : ℕ, headerNumber (data.take 1024) first = some (i : ℤ) ∧ headerNumber (data.take 1024) last = some (j : ℤ) ∧
    i ≤ j ∧ j ≤ data.length ∧ (data.drop i).take (j - i) = part

theorem drop_take_middle {front part back : List UInt8} {j : ℕ} (hi : front.length = i) (hj : i + part.length = j) :
    ((front ++ part ++ back).drop i).take (j - i) = part := by
  rw [append_assoc, drop_left' hi, take_left' (by omega)]

/-- What `html_to_cf_html` writes: where everything stands. -/
theorem htmlToCfHtml_layout {html : List UInt8} (hlength : (localTextToUtf8 html).length < 10 ^ 9) :
    ∃ a b c d : ℕ, a < 10 ^ 10 ∧ b < 10 ^ 10 ∧ c < 10 ^ 10 ∧ d < 10 ^ 10 ∧
      htmlToCfHtml html = cfHtmlHeader a b c d ++ (htmlParts (localTextToUtf8 html)).marked ++ [0] ∧
      a = 105 ∧ a + (htmlParts (localTextToUtf8 html)).marked.length = b ∧
      c = a + ((htmlParts (localTextToUtf8 html)).opening ++ (htmlParts (localTextToUtf8 html)).before ++
        startMarker).length ∧
      c + (htmlParts (localTextToUtf8 html)).fragment.length = d := by
  have hparts : (htmlParts (localTextToUtf8 html)).Of (localTextToUtf8 html) :=
    htmlParts_of (conversions_wellFormed html).2.2.1
  have hheader : (cfHtmlHeader 0 0 0 0).length = 105 :=
    cfHtmlHeader_length (by decide) (by decide) (by decide) (by decide)
  have hcontent := congrArg List.length hparts.content
  have htags : (htmlParts (localTextToUtf8 html)).opening.length + (htmlParts (localTextToUtf8 html)).closing.length ≤
      26 := by
    rcases hparts.tags with ⟨ho, hc, -⟩ | ⟨ho, hc, -⟩
    · rw [ho, hc]
      decide
    · rw [ho, hc]
      decide
  have hmarkers : startMarker.length = 20 ∧ endMarker.length = 18 := by decide
  unfold htmlToCfHtml
  simp only [length_append] at hcontent
  refine ⟨_, _, _, _, ?_, ?_, ?_, ?_, rfl, hheader, ?_, ?_, rfl⟩
  all_goals simp only [hheader, Parts.marked, length_append]; omega

/-- **HTML survives the client's clipboard**: the header's offsets delimit the
fragment and the marked document, and the marked document is read back, with a
charset in front when it names none. -/
theorem htmlToCfHtml_sound {html : List UInt8} (hmark : byteOrderMark.isPrefixOf (localTextToUtf8 html) = false)
    (hlength : (localTextToUtf8 html).length < 10 ^ 9) :
    Delimits (htmlToCfHtml html) (text "StartFragment") (text "EndFragment")
        (htmlParts (localTextToUtf8 html)).fragment ∧
      Delimits (htmlToCfHtml html) (text "StartHTML") (text "EndHTML") (htmlParts (localTextToUtf8 html)).marked ∧
      cfHtmlToHtml (htmlToCfHtml html) =
        .ok (if (findAscii ((htmlParts (localTextToUtf8 html)).marked.take 1024) (text "charset")).isNone then
          charsetMeta ++ (htmlParts (localTextToUtf8 html)).marked
        else (htmlParts (localTextToUtf8 html)).marked) := by
  obtain ⟨cs, hcs, hnul⟩ := localTextToUtf8_wellFormed html
  have hparts : (htmlParts (localTextToUtf8 html)).Of (localTextToUtf8 html) := htmlParts_of ⟨cs, hcs⟩
  have h0 : 0 ∉ localTextToUtf8 html := by
    rw [hcs]
    exact nulFree_iff.mpr hnul
  have hkept := localTextToUtf8_utf8 hparts.marked_wellFormed (hparts.marked_nulFree h0) (hparts.marked_mark hmark)
  obtain ⟨a, b, c, d, ha, hb, hc, hd, hdata, hstart, hend, hfragment, hlast⟩ := htmlToCfHtml_layout hlength
  have hheader := cfHtmlHeader_length ha hb hc hd
  have hzero := hparts.marked_nulFree h0
  have hmarked : (htmlParts (localTextToUtf8 html)).marked =
      (htmlParts (localTextToUtf8 html)).opening ++ (htmlParts (localTextToUtf8 html)).before ++ startMarker ++
        (htmlParts (localTextToUtf8 html)).fragment ++ (endMarker ++ (htmlParts (localTextToUtf8 html)).after ++
          (htmlParts (localTextToUtf8 html)).closing) := by
    simp only [Parts.marked, append_assoc]
  generalize htmlParts (localTextToUtf8 html) = p at *
  have hsize : (htmlToCfHtml html).length = b + 1 := by
    rw [hdata, length_append, length_append, length_singleton]
    omega
  have htake : (htmlToCfHtml html).take 1024 = cfHtmlHeader a b c d ++ (p.marked ++ [0]).take 919 := by
    rw [hdata, append_assoc, take_append, hheader, take_of_length_le (by rw [hheader]; decide)]
  obtain ⟨hn1, hn2, hn3, hn4⟩ := headerNumbers ha hb hc hd ((p.marked ++ [0]).take 919)
  have hdocument : ((htmlToCfHtml html).drop a).take (b - a) = p.marked := by
    rw [hdata]
    exact drop_take_middle (by rw [hheader, hstart]) hend
  refine ⟨⟨c, d, ?_, ?_, by omega, ?_, ?_⟩, ⟨a, b, ?_, ?_, by omega, by omega, hdocument⟩, ?_⟩
  · rw [htake, hn3]
  · rw [htake, hn4]
  · have hmarkedLength := congrArg List.length hmarked
    simp only [length_append] at hmarkedLength hfragment
    omega
  · rw [hdata, hmarked]
    have hshape : cfHtmlHeader a b c d ++ (p.opening ++ p.before ++ startMarker ++ p.fragment ++
        (endMarker ++ p.after ++ p.closing)) ++ [0] = cfHtmlHeader a b c d ++ (p.opening ++ p.before ++ startMarker) ++
          p.fragment ++ (endMarker ++ p.after ++ p.closing ++ [0]) := by
      simp only [append_assoc]
    rw [hshape]
    exact drop_take_middle (by rw [length_append, hheader, hfragment, hstart]) hlast
  · rw [htake, hn1]
  · rw [htake, hn2]
  · have hrange : range (htmlToCfHtml html) (some (a : ℤ)) (some (b : ℤ)) = some p.marked := by
      unfold range
      simp only
      rw [if_neg (by omega), ← hdocument]
      congr 3
      omega
    have hstrip : p.marked.rdropWhile (· == 0) = p.marked := by
      rw [rdropWhile_eq_self_iff]
      intro hl hlastZero
      rw [beq_iff_eq] at hlastZero
      exact hzero (hlastZero ▸ getLast_mem hl)
    unfold cfHtmlToHtml
    simp only [htake, hn1, hn2, hrange, Option.isNone_some, Bool.false_eq_true, false_and, if_false, hstrip,
      hkept]

theorem lastDigits_wellFormed (count n : ℕ) : WellFormed (lastDigits count n) := by
  have hdigit : ∀ d < 10, (UInt8.ofNat (0x30 + d)).toNat < 0x80 := by decide
  apply wellFormed_ascii
  induction count generalizing n with
  | zero => exact fun _ hb => absurd hb not_mem_nil
  | succ count ih =>
    intro b hb
    rcases mem_append.mp hb with hb | hb
    · exact ih _ b hb
    · rw [mem_singleton] at hb
      exact hb ▸ hdigit _ (Nat.mod_lt n (by decide))

theorem htmlToCfHtml_wellFormed (html : List UInt8) : WellFormed (htmlToCfHtml html) := by
  have hdigits (n : ℕ) : WellFormed (tenDigits n) := by
    unfold tenDigits
    split_ifs <;> exact lastDigits_wellFormed _ _
  have hheader (a b c d : ℕ) : WellFormed (cfHtmlHeader a b c d) :=
    ((((((((text_wellFormed _).append (hdigits a)).append (text_wellFormed _)).append (hdigits b)).append
      (text_wellFormed _)).append (hdigits c)).append (text_wellFormed _)).append (hdigits d)).append
        (text_wellFormed _)
  have hparts : (htmlParts (localTextToUtf8 html)).Of (localTextToUtf8 html) :=
    htmlParts_of (conversions_wellFormed html).2.2.1
  exact ((hheader _ _ _ _).append hparts.marked_wellFormed).append (wellFormed_ascii (forall_of_all (by decide)))

/-- **The clipboard keeps the content.** HTML: the document is cut into what is
before the fragment, the fragment and what is after it, only markers are added
(and tags of a document around one that has no body), and the header delimits
it. Text: nothing but the line ends changes. Whatever is converted is well
formed. -/
theorem conversions_keep_content :
    (∀ html : List UInt8, byteOrderMark.isPrefixOf (localTextToUtf8 html) = false →
      (localTextToUtf8 html).length < 10 ^ 9 →
      ∃ p : Parts, p.before ++ p.fragment ++ p.after = localTextToUtf8 html ∧
        ((∃ tag tagEnd close, BodyElement (localTextToUtf8 html) tag tagEnd close ∧
            p = bodyParts (localTextToUtf8 html) tagEnd close) ∨
          (¬ ∃ tag tagEnd close, BodyElement (localTextToUtf8 html) tag tagEnd close) ∧
            p = wrapped (localTextToUtf8 html)) ∧
        Delimits (htmlToCfHtml html) (text "StartFragment") (text "EndFragment") p.fragment ∧
        Delimits (htmlToCfHtml html) (text "StartHTML") (text "EndHTML") p.marked ∧
        cfHtmlToHtml (htmlToCfHtml html) =
          .ok (if (findAscii (p.marked.take 1024) (text "charset")).isNone then charsetMeta ++ p.marked
          else p.marked)) ∧
    (∀ t : Text, WellFormed t → 0 ∉ t → unicodeTextToUtf8 (utf8ToUnicodeText t) = crlfToLf t) ∧
    ∀ data : List UInt8, WellFormed (unicodeTextToUtf8 data) ∧ WellFormed (ansiTextToUtf8 data) ∧
      WellFormed (localTextToUtf8 data) ∧ WellFormed (htmlToCfHtml data) ∧
      ∀ html, cfHtmlToHtml data = .ok html → WellFormed html := by
  refine ⟨fun html hmark hlength => ?_, fun _ => unicodeText_roundTrip, fun data => ?_⟩
  · have hparts : (htmlParts (localTextToUtf8 html)).Of (localTextToUtf8 html) :=
      htmlParts_of (conversions_wellFormed html).2.2.1
    exact ⟨_, hparts.content, htmlParts_cases _, htmlToCfHtml_sound hmark hlength⟩
  · obtain ⟨hunicode, hansi, hlocal, hread⟩ := conversions_wellFormed data
    exact ⟨hunicode, hansi, hlocal, htmlToCfHtml_wellFormed data, hread⟩

/-- A body in capital letters, and text with both line ends. -/
theorem conversions_keep_content_body :
    (∃ p : Parts, p.before ++ p.fragment ++ p.after = text "<BODY>é</Body>" ∧
      Delimits (htmlToCfHtml (text "<BODY>é</Body>")) (text "StartFragment") (text "EndFragment") p.fragment) ∧
      unicodeTextToUtf8 (utf8ToUnicodeText (text "a\nb\r\n")) = text "a\nb\n" := by
  constructor
  · have hdocument : localTextToUtf8 (text "<BODY>é</Body>") = text "<BODY>é</Body>" := by decide
    obtain ⟨p, hcontent, -, hfragment, -⟩ := conversions_keep_content.1 (text "<BODY>é</Body>")
      (by rw [hdocument]; decide) (by rw [hdocument]; decide)
    exact ⟨p, hcontent.trans hdocument, hfragment⟩
  · rw [conversions_keep_content.2.1 _ (text_wellFormed _) (by decide)]
    decide

end ClipboardFormats
end Channels
end Farland
