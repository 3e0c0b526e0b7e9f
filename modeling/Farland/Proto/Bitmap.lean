/-
# Bitmap updates

TS_UPDATE_BITMAP_DATA (`proto/bitmap.cpp`): rectangles with their bitmaps, the
payload of a slow-path Update PDU and of a fast-path bitmap update. `none` is a
failed assertion of the encoder.

Key theorems: `encodeBitmapUpdate_some`, **`decode_encode`**.
-/
import Farland.Base.ReadBack

namespace Farland
namespace Proto
namespace Bitmap

open List Reader

/-! ### The format -/

namespace BitmapFlags

def compression : ℕ := 0x0001
def noBitmapCompressionHdr : ℕ := 0x0400

end BitmapFlags

def updatetypeBitmap : ℕ := 0x0001
def rectHeaderSize : ℕ := 18
def compressionHeaderSize : ℕ := 8
def maxRectangles : ℕ := 0xFFFF

/-- TS_BITMAP_DATA; the destination bounds are inclusive. -/
structure BitmapData where
  destLeft : ℕ
  destTop : ℕ
  destRight : ℕ
  destBottom : ℕ
  width : ℕ
  height : ℕ
  bitsPerPixel : ℕ
  flags : ℕ
  data : List UInt8
  deriving DecidableEq

/-- Whether flags ask for a TS_CD_HEADER. -/
def flagsHaveHeader (flags : ℕ) : Bool :=
  flags &&& BitmapFlags.compression != 0 && flags &&& BitmapFlags.noBitmapCompressionHdr == 0

namespace BitmapData

variable (rect : BitmapData)

def hasCompressionHeader : Bool := flagsHaveHeader rect.flags

def headerSize : ℕ := if rect.hasCompressionHeader then compressionHeaderSize else 0

def encodedSize : ℕ := rectHeaderSize + rect.headerSize + rect.data.length

def scanWidth : ℕ := rect.width * rect.bitsPerPixel / 8

end BitmapData

/-! ### Encoding -/

variable (rect : BitmapData)

/-- [MS-RDPBCGR] 2.2.9.1.1.3.1.2.3. -/
def writeCompressionHeader : Option (List UInt8) := do
  asserts (rect.scanWidth ≤ 0xFFFF ∧ rect.scanWidth * rect.height ≤ 0xFFFF ∧ rect.data.length ≤ 0xFFFF)
  pure (Writer.u16le 0 ++ Writer.u16le rect.data.length ++ Writer.u16le rect.scanWidth ++
    Writer.u16le (rect.scanWidth * rect.height))

def writeHeader : Option (List UInt8) :=
  if rect.hasCompressionHeader then writeCompressionHeader rect else some []

def writeRect : Option (List UInt8) := do
  asserts (rect.data.length + rect.headerSize ≤ 0xFFFF)
  let header ← writeHeader rect
  pure (Writer.u16le rect.destLeft ++ Writer.u16le rect.destTop ++ Writer.u16le rect.destRight ++
    Writer.u16le rect.destBottom ++ Writer.u16le rect.width ++ Writer.u16le rect.height ++
    Writer.u16le rect.bitsPerPixel ++ Writer.u16le rect.flags ++
    Writer.u16le (rect.data.length + rect.headerSize) ++ header ++ rect.data)

def writeRects : List BitmapData → Option (List UInt8)
  | [] => some []
  | rect :: rects => do
    let first ← writeRect rect
    let rest ← writeRects rects
    pure (first ++ rest)

def encodeBitmapUpdate (rects : List BitmapData) : Option (List UInt8) := do
  asserts (rects.length ≤ maxRectangles)
  let body ← writeRects rects
  pure (Writer.u16le updatetypeBitmap ++ Writer.u16le rects.length ++ body)

/-! ### Decoding -/

/-- The data behind a bitmapLength; a TS_CD_HEADER may or may not be counted in it. -/
def readData (hasHeader : Bool) (lengthOffset length : ℕ) : Parse (List UInt8) :=
  if hasHeader then do
    skip 2
    let body ← u16le
    skip 4
    if length ≠ body + compressionHeaderSize ∧ length ≠ body then
      Parse.fail .invalidLength "bitmapLength disagrees with cbCompMainBodySize" lengthOffset
    else bytes body
  else bytes length

def readRect : Parse BitmapData := do
  let destLeft ← u16le
  let destTop ← u16le
  let destRight ← u16le
  let destBottom ← u16le
  let width ← u16le
  let height ← u16le
  let bitsPerPixel ← u16le
  let flags ← u16le
  let lengthOffset ← at_
  let length ← u16le
  let data ← readData (flagsHaveHeader flags) lengthOffset length
  pure { destLeft, destTop, destRight, destBottom, width, height, bitsPerPixel, flags, data }

def readBitmapUpdate : Parse (List BitmapData) := do
  let start ← at_
  let updateType ← u16le
  if updateType ≠ updatetypeBitmap then Parse.fail .invalidValue "not a bitmap update" start
  else do
    let count ← u16le
    let rects ← readMany readRect count
    expectEnd "bitmap update"
    pure rects

def decodeBitmapUpdate (update : List UInt8) : Result (List BitmapData) := (readBitmapUpdate ⟨update, 0⟩).map Prod.fst

/-! ### What can be written -/

/-- The rectangle and its lengths fit their fields. -/
structure Fits (rect : BitmapData) : Prop where
  destLeft : rect.destLeft < 2 ^ 16
  destTop : rect.destTop < 2 ^ 16
  destRight : rect.destRight < 2 ^ 16
  destBottom : rect.destBottom < 2 ^ 16
  width : rect.width < 2 ^ 16
  height : rect.height < 2 ^ 16
  bitsPerPixel : rect.bitsPerPixel < 2 ^ 16
  flags : rect.flags < 2 ^ 16
  length : rect.data.length + rect.headerSize ≤ 0xFFFF
  scan : rect.scanWidth ≤ 0xFFFF ∧ rect.scanWidth * rect.height ≤ 0xFFFF

section

variable {rect : BitmapData} {rects : List BitmapData}

open Parse

theorem writeHeader_some (h : Fits rect) : ∃ header, writeHeader rect = some header ∧
    header.length = rect.headerSize ∧ ∀ offset, (readData (flagsHaveHeader rect.flags) offset
      (rect.data.length + rect.headerSize)).ReadsBack (header ++ rect.data) rect.data := by
  have hlength := h.length
  have hdata : rect.data.length ≤ 0xFFFF := by omega
  have hskip : ∀ {n : ℕ} (xs : List UInt8), xs.length = n → (skip n).ReadsBack xs () := by
    intro n xs hn rest o
    rw [skip_append xs rest o hn, hn]
  unfold writeHeader readData BitmapData.headerSize
  by_cases hflags : rect.hasCompressionHeader = true
  · have hflags' : flagsHaveHeader rect.flags = true := hflags
    refine ⟨_, by rw [if_pos hflags, writeCompressionHeader, asserts, if_pos ⟨h.scan.1, h.scan.2, hdata⟩]; rfl, ?_, ?_⟩
    · rw [if_pos hflags]
      rfl
    · intro offset
      rw [if_pos hflags', if_pos hflags]
      refine (hskip (Writer.u16le 0) rfl).bind ?_
      refine (u16le_readsBack (by omega)).bind ?_
      refine (hskip (Writer.u16le _ ++ Writer.u16le _) rfl).bind ?_
      exact (bytes_readsBack rect.data).unless fun hne => hne.1 rfl
  · have hflags' : ¬ flagsHaveHeader rect.flags = true := hflags
    refine ⟨[], if_neg hflags, ?_, ?_⟩
    · rw [if_neg hflags]
      rfl
    · intro offset
      rw [if_neg hflags', if_neg hflags]
      exact bytes_readsBack rect.data

theorem writeRect_some (h : Fits rect) : ∃ bytes, writeRect rect = some bytes ∧ bytes.length = rect.encodedSize ∧
    readRect.ReadsBack bytes rect := by
  have hlength := h.length
  obtain ⟨header, hwritten, hlen, hread⟩ := writeHeader_some h
  refine ⟨_, by rw [writeRect, asserts, if_pos hlength, hwritten]; rfl, ?_, ?_⟩
  · simp only [length_append, Writer.u16le_length, hlen, BitmapData.encodedSize, rectHeaderSize]
  · simp only [append_assoc]
    unfold readRect
    refine (u16le_readsBack h.destLeft).bind ?_
    refine (u16le_readsBack h.destTop).bind ?_
    refine (u16le_readsBack h.destRight).bind ?_
    refine (u16le_readsBack h.destBottom).bind ?_
    refine (u16le_readsBack h.width).bind ?_
    refine (u16le_readsBack h.height).bind ?_
    refine (u16le_readsBack h.bitsPerPixel).bind ?_
    refine (u16le_readsBack h.flags).bind ?_
    refine ReadsBack.at_ fun offset => ?_
    refine (u16le_readsBack (by omega)).bind ?_
    exact (hread offset).map (ReadsBack.pure rect)

theorem writeRects_some : ∀ (rects : List BitmapData), (∀ rect ∈ rects, Fits rect) →
    ∃ bytes, writeRects rects = some bytes ∧ bytes.length = (rects.map BitmapData.encodedSize).sum ∧
      (readMany readRect rects.length).ReadsBack bytes rects
  | [], _ => ⟨[], rfl, rfl, ReadsBack.pure []⟩
  | rect :: rects, h => by
    obtain ⟨first, hfirst, hsize, hread⟩ := writeRect_some (h rect mem_cons_self)
    obtain ⟨rest, hrest, hsizes, hreads⟩ := writeRects_some rects fun r hr => h r (mem_cons_of_mem _ hr)
    refine ⟨first ++ rest, by rw [writeRects, hfirst, hrest]; rfl, ?_, ?_⟩
    · rw [length_append, map_cons, sum_cons, hsize, hsizes]
    · exact hread.bind (hreads.map (ReadsBack.pure _))

/-- **An update is written and read back.** -/
theorem encodeBitmapUpdate_some (h : ∀ rect ∈ rects, Fits rect) (hcount : rects.length ≤ maxRectangles) :
    ∃ bytes, encodeBitmapUpdate rects = some bytes ∧ bytes.length = 4 + (rects.map BitmapData.encodedSize).sum ∧
      decodeBitmapUpdate bytes = .ok rects := by
  obtain ⟨body, hbody, hsize, hread⟩ := writeRects_some rects h
  refine ⟨_, by rw [encodeBitmapUpdate, asserts, if_pos hcount, hbody]; rfl, ?_, ?_⟩
  · simp only [length_append, Writer.u16le_length, hsize]
  · have hsmall : rects.length < 2 ^ 16 := by
      simp only [maxRectangles] at hcount
      omega
    have htype : u16le.ReadsBack (Writer.u16le updatetypeBitmap) updatetypeBitmap := u16le_readsBack (by decide)
    have hnumber : u16le.ReadsBack (Writer.u16le rects.length) rects.length := u16le_readsBack hsmall
    have hlist := hread [] (0 + 2 + 2)
    rw [append_nil] at hlist
    unfold decodeBitmapUpdate readBitmapUpdate
    rw [Parse.bind_ok (a := 0) rfl, append_assoc, Parse.bind_ok (htype _ 0), if_neg (fun hne => hne rfl),
      Parse.bind_ok (hnumber _ _)]
    simp only [Writer.u16le_length]
    rw [Parse.bind_ok hlist]
    rfl

/-- Too many rectangles are not written. -/
theorem encodeBitmapUpdate_none (h : maxRectangles < rects.length) : encodeBitmapUpdate rects = none := by
  rw [encodeBitmapUpdate, asserts, if_neg (Nat.not_le.mpr h)]
  rfl

end

end Bitmap
end Proto
end Farland
