/-
The orientation of an uploaded JPEG (`exif_orientation`,
media/decode/decode.cpp).

The upload is untrusted, so every read is a partial function: `none` is a
read outside the span the parser was given, and the parser's whole result
is `none` as soon as one of its reads is. The second half of the file says
what a well-formed picture is; nothing of the parser is used there.
-/
import Mathlib.Data.UInt

namespace Ginfer.Media.Exif

-- ============ the reads

section

variable (bytes : List UInt8)

/-- `bytes[offset]`; `none` is a read outside the span. -/
def byteAt (offset : Nat) : Option Nat :=
  bytes[offset]?.map UInt8.toNat

/-- What `memcmp` reads at `offset`. -/
def window (offset size : Nat) : Option (List UInt8) :=
  if offset + size ≤ bytes.length then some ((bytes.drop offset).take size)
  else none

def be16 (offset : Nat) : Option Nat := do
  let high ← byteAt bytes offset
  let low ← byteAt bytes (offset + 1)
  pure (high <<< 8 ||| low)

def u16 (little : Bool) (offset : Nat) : Option Nat :=
  if offset + 2 > bytes.length then pure 0
  else do
    let first ← byteAt bytes offset
    let second ← byteAt bytes (offset + 1)
    pure (if little then first ||| second <<< 8 else first <<< 8 ||| second)

def u32 (little : Bool) (offset : Nat) : Option Nat :=
  if offset + 4 > bytes.length then pure 0
  else do
    let b₀ ← byteAt bytes offset
    let b₁ ← byteAt bytes (offset + 1)
    let b₂ ← byteAt bytes (offset + 2)
    let b₃ ← byteAt bytes (offset + 3)
    pure (if little then b₀ ||| b₁ <<< 8 ||| b₂ <<< 16 ||| b₃ <<< 24
      else b₀ <<< 24 ||| b₁ <<< 16 ||| b₂ <<< 8 ||| b₃)

-- ============ the parser

/-- The entries of the directory from `entry` on. The three fields are
read up front; the source stops at the first that differs. -/
def scanEntries (little : Bool) (entry : Nat) : (remaining : Nat) → Option Nat
  | 0 => pure 1
  | remaining + 1 =>
    if entry + 12 > bytes.length then pure 1
    else do
      let tag ← u16 bytes little entry
      let type ← u16 bytes little (entry + 2)
      let count ← u32 bytes little (entry + 4)
      if tag = 0x0112 ∧ type = 3 ∧ count = 1 then do
        let orientation ← u16 bytes little (entry + 8)
        pure (if 1 ≤ orientation ∧ orientation ≤ 8 then orientation else 1)
      else scanEntries little (entry + 12) remaining

/-- The TIFF header at `tiff`, once the byte order is known. -/
def readDirectory (little : Bool) (tiff : Nat) : Option Nat := do
  if (← u16 bytes little (tiff + 2)) ≠ 42 then pure 1
  else do
    let ifd := tiff + (← u32 bytes little (tiff + 4))
    if ifd + 2 > bytes.length then pure 1
    else do
      let count ← u16 bytes little ifd
      scanEntries bytes little (ifd + 2) count

/-- The payload of an Exif segment, its six bytes of mark behind it. -/
def readTiff (tiff : Nat) : Option Nat := do
  let first ← byteAt bytes tiff
  let second ← byteAt bytes (tiff + 1)
  if first = 'I'.toNat ∧ second = 'I'.toNat then readDirectory bytes true tiff
  else if first = 'M'.toNat ∧ second = 'M'.toNat then
    readDirectory bytes false tiff
  else pure 1

/-- `"Exif\0\0"`. -/
def exifMark : List UInt8 := [0x45, 0x78, 0x69, 0x66, 0, 0]

/-- `kind == 0xe1`, room for a TIFF header, and the mark. -/
def isExif (kind payload payloadSize : Nat) : Option Bool :=
  if kind = 0xe1 ∧ 14 ≤ payloadSize then
    (window bytes payload 6).map (· == exifMark)
  else pure false

/-- The marker walk; every `break` of the source returns 1. -/
def walk (marker : Nat) : Option Nat :=
  if _ : marker + 4 ≤ bytes.length then do
    if (← byteAt bytes marker) ≠ 0xff then pure 1
    else do
      let kind ← byteAt bytes (marker + 1)
      if kind = 0xda ∨ kind = 0xd9 then pure 1
      else do
        let length ← be16 bytes (marker + 2)
        if length < 2 ∨ marker + 2 + length > bytes.length then pure 1
        else do
          if ← isExif bytes kind (marker + 4) (length - 2) then
            readTiff bytes (marker + 4 + 6)
          else walk (marker + (2 + length))
  else pure 1
termination_by bytes.length - marker

/-- The parser on the span it has cut. -/
def orientationIn : Option Nat :=
  if bytes.length < 4 then pure 1
  else do
    let first ← byteAt bytes 0
    let second ← byteAt bytes 1
    if first ≠ 0xff ∨ second ≠ 0xd8 then pure 1 else walk bytes 2

/-- `limit`, the bytes that are looked at. -/
def limit : Nat := 2 ^ 20

def exifOrientation : Option Nat :=
  orientationIn (bytes.take limit)

end

-- ============ a well-formed picture

/-- A 16-bit field in either byte order. -/
def put16 (little : Bool) (v : UInt16) : List UInt8 :=
  if little then [v.toUInt8, (v >>> 8).toUInt8]
  else [(v >>> 8).toUInt8, v.toUInt8]

/-- A 32-bit field in either byte order. -/
def put32 (little : Bool) (v : UInt32) : List UInt8 :=
  if little then
    [v.toUInt8, (v >>> 8).toUInt8, (v >>> 16).toUInt8, (v >>> 24).toUInt8]
  else [(v >>> 24).toUInt8, (v >>> 16).toUInt8, (v >>> 8).toUInt8, v.toUInt8]

/-- A marker segment the walk passes over: neither SOS nor EOI, and not the
APP1 of an Exif directory. Its length field counts itself. -/
structure Segment where
  kind : UInt8
  payload : List UInt8
  proceeds : kind ≠ 0xda ∧ kind ≠ 0xd9
  fits : payload.length + 2 < 2 ^ 16
  other : ¬ (kind = 0xe1 ∧ 14 ≤ payload.length ∧ payload.take 6 = exifMark)

def Segment.encode (s : Segment) : List UInt8 :=
  [0xff, s.kind] ++ put16 false (.ofNat (s.payload.length + 2)) ++ s.payload

/-- An entry of the directory: a SHORT value stands in the first half of
its four value bytes. -/
structure Entry where
  tag : UInt16
  type : UInt16
  count : UInt32
  value : UInt16
  rest : UInt16

def Entry.encode (little : Bool) (e : Entry) : List UInt8 :=
  put16 little e.tag ++ put16 little e.type ++ put32 little e.count
    ++ put16 little e.value ++ put16 little e.rest

/-- An image file directory: how many entries, and the entries. -/
def directory (little : Bool) (entries : List Entry) : List UInt8 :=
  put16 little (.ofNat entries.length) ++ entries.flatMap (Entry.encode little)

/-- A TIFF header: the byte order, 42, where the directory stands. -/
def tiffHeader (little : Bool) (offset : UInt32) : List UInt8 :=
  (if little then [0x49, 0x49] else [0x4d, 0x4d])
    ++ put16 little 42 ++ put32 little offset

/-- A JPEG whose first Exif segment follows `segments`. `tiff` is all that
follows the mark, to the end of the file: the directory may stand anywhere
in it. -/
structure Jpeg where
  segments : List Segment
  length : UInt16
  little : Bool
  offset : UInt32
  entries : List Entry
  tiff : List UInt8
  header : tiffHeader little offset <+: tiff
  room : 16 ≤ length.toNat
  few : entries.length < 2 ^ 16
  placed : directory little entries <+: tiff.drop offset.toNat

namespace Jpeg

variable (j : Jpeg)

def bytes : List UInt8 :=
  [0xff, 0xd8] ++ (j.segments.flatMap Segment.encode
    ++ ([0xff, 0xe1] ++ put16 false j.length ++ exifMark ++ j.tiff))

/-- Where the Exif segment starts. -/
def app1 : Nat := 2 + (j.segments.flatMap Segment.encode).length

/-- The Exif segment and the directory are in the bytes looked at. -/
structure Within : Prop where
  segment : j.app1 + 2 + j.length.toNat ≤ min j.bytes.length limit
  directory : j.app1 + 10 + j.offset.toNat
    + (directory j.little j.entries).length ≤ limit

end Jpeg

/-- The value of the first entry with tag 0x0112, type SHORT and count 1
if it is an orientation, else 1. -/
def orientationOf (entries : List Entry) : Nat :=
  match entries.find? (fun e => e.tag = 0x0112 ∧ e.type = 3 ∧ e.count = 1) with
  | some e => if 1 ≤ e.value.toNat ∧ e.value.toNat ≤ 8 then e.value.toNat else 1
  | none => 1

end Ginfer.Media.Exif
