/-
# Text between encodings

The protocols carry text as UTF-16LE, the code keeps it as UTF-8
(`base/text.hpp`). Decoding never fails: a lone surrogate becomes U+FFFD, and
a zero unit ends the text.
-/
import Farland.Base.Reader

namespace Farland

/-- What is decided of one element after the other. -/
theorem forall_of_all {α : Type} {p : α → Prop} [DecidablePred p] {l : List α} (h : l.all (fun a => decide (p a)) = true) :
    ∀ a ∈ l, p a := by
  simpa using h

/-- U+FFFD. -/
def replacement : ℕ := 0xFFFD

def isHighSurrogate (u : ℕ) : Bool := 0xD800 ≤ u && u ≤ 0xDBFF

def isLowSurrogate (u : ℕ) : Bool := 0xDC00 ≤ u && u ≤ 0xDFFF

/-- `append_utf8`: the bytes of one code point. -/
def utf8Of (v : ℕ) : Text :=
  if v < 0x80 then [UInt8.ofNat v]
  else if v < 0x800 then [UInt8.ofNat (0xC0 ||| v >>> 6), UInt8.ofNat (0x80 ||| v &&& 0x3F)]
  else if v < 0x10000 then
    [UInt8.ofNat (0xE0 ||| v >>> 12), UInt8.ofNat (0x80 ||| v >>> 6 &&& 0x3F), UInt8.ofNat (0x80 ||| v &&& 0x3F)]
  else
    [UInt8.ofNat (0xF0 ||| v >>> 18), UInt8.ofNat (0x80 ||| v >>> 12 &&& 0x3F),
      UInt8.ofNat (0x80 ||| v >>> 6 &&& 0x3F), UInt8.ofNat (0x80 ||| v &&& 0x3F)]

/-- The whole 16-bit units of a byte string. -/
def utf16Units : List UInt8 → List ℕ
  | low :: high :: rest => (low.toNat ||| high.toNat <<< 8) :: utf16Units rest
  | _ => []

/-- The text of the units; `odd` when a lone byte follows them. -/
def utf8OfUnits (odd : Bool) : List ℕ → Text
  | [] => if odd then utf8Of replacement else []
  | [u] =>
    if u = 0 then []
    else utf8Of (if isHighSurrogate u || isLowSurrogate u then replacement else u) ++ utf8OfUnits odd []
  | u :: low :: rest =>
    if u = 0 then []
    else if isHighSurrogate u && isLowSurrogate low then
      utf8Of (0x10000 + (u - 0xD800) <<< 10 + (low - 0xDC00)) ++ utf8OfUnits odd rest
    else utf8Of (if isHighSurrogate u || isLowSurrogate u then replacement else u) ++ utf8OfUnits odd (low :: rest)

def utf16leToUtf8 (bytes : List UInt8) : Text := utf8OfUnits (bytes.length % 2 ≠ 0) (utf16Units bytes)

/-! ### UTF-8 to UTF-16LE -/

/-- What the first byte of a longer sequence promises: how many bytes follow,
its own bits, and the least code point of that length. -/
def utf8Lead (lead : ℕ) : Option (ℕ × ℕ × ℕ) :=
  if lead &&& 0xE0 = 0xC0 then some (1, lead &&& 0x1F, 0x80)
  else if lead &&& 0xF0 = 0xE0 then some (2, lead &&& 0x0F, 0x800)
  else if lead &&& 0xF8 = 0xF0 then some (3, lead &&& 0x07, 0x10000)
  else none

/-- The bits of the continuation bytes behind those of `cp`. -/
def utf8Continue : ℕ → Text → Option ℕ
  | cp, [] => some cp
  | cp, c :: rest =>
    if c.toNat &&& 0xC0 ≠ 0x80 then none else utf8Continue (cp <<< 6 ||| c.toNat &&& 0x3F) rest

/-- `next_utf8`: the code point of the sequence that starts with `lead`, and what follows it. -/
def nextUtf8 (lead : UInt8) (rest : Text) : ℕ × Text :=
  if lead.toNat < 0x80 then (lead.toNat, rest)
  else match utf8Lead lead.toNat with
    | none => (replacement, rest)
    | some (extra, bits, least) =>
      if extra > rest.length then (replacement, rest)
      else match utf8Continue bits (rest.take extra) with
        | none => (replacement, rest)
        | some cp =>
          if cp < least ∨ cp > 0x10FFFF ∨ isHighSurrogate cp ∨ isLowSurrogate cp then
            (replacement, rest.drop extra)
          else (cp, rest.drop extra)

/-- `append_utf16le`: the bytes of a 16-bit unit. -/
def utf16leUnit (unit : ℕ) : List UInt8 := [UInt8.ofNat unit, UInt8.ofNat (unit >>> 8)]

def utf16leOf (cp : ℕ) : List UInt8 :=
  if cp ≥ 0x10000 then
    utf16leUnit (0xD800 + (cp - 0x10000) >>> 10) ++ utf16leUnit (0xDC00 + ((cp - 0x10000) &&& 0x3FF))
  else utf16leUnit cp

/-- A sequence takes a byte at least, so the size of the text is fuel enough. -/
def utf16leFrom : ℕ → Text → List UInt8
  | 0, _ => []
  | _, [] => []
  | fuel + 1, lead :: rest => utf16leOf (nextUtf8 lead rest).1 ++ utf16leFrom fuel (nextUtf8 lead rest).2

def utf8ToUtf16le (s : Text) : List UInt8 := utf16leFrom s.length s

end Farland
