/-
The reference decoder of the row-split layout (tools/artifact/layouts.py,
`split_row_planes`, `_unpack_codes`, `decode_row_split_codes` and the
dequantisers of `dequantize_row_split`).

A weight is a signed code of four, five, six or eight bits and the
binary16 scale of its group, here the scale's word. The low four bits of
a code lie in the base plane, two codes to a byte, the bits above in the
high plane; a code of eight bits is a byte of the base plane.

The tensors are functions of their indices; what `reshape` does to a
plane is to count its bytes in rows.
-/
import Ginfer.Artifact.Container

namespace Ginfer.Container

open Ginfer.Artifact
open Ginfer.Frontend (Bytes ascii)

-- ============ the planes

/-- `RowPlanes` of all rows. -/
structure RowPlanes where
  base : Bytes
  high : Bytes
  scale : Bytes

/-- `split_row_planes` of all rows. -/
def splitRowPlanes (payload : Bytes) (geometry : RowSplitGeometry) :
    RowPlanes :=
  { base := (payload.drop geometry.baseOffset).take
      (geometry.n * geometry.baseRowBytes)
    high := (payload.drop geometry.highOffset).take
      (geometry.n * geometry.highRowBytes)
    scale := (payload.drop geometry.scaleOffset).take
      (geometry.n * geometry.scaleRowBytes) }

/-- A byte of a plane, as the integer it is converted to. -/
def byteAt (plane : Bytes) (i : Nat) : Nat := (plane.getD i 0).toNat

/-- `view(torch.float16)`: the word of element `i`. -/
def wordAt (plane : Bytes) (i : Nat) : Nat :=
  byteAt plane (2 * i) + 256 * byteAt plane (2 * i + 1)

/-- `view(torch.int8)`. -/
def int8At (plane : Bytes) (i : Nat) : Int :=
  let byte := byteAt plane i
  if byte < 128 then byte else (byte : Int) - 256

-- ============ the codes

/-- The four low bits of a code: `low` of `_unpack_codes`. -/
def lowBits (planes : RowPlanes) (bytesPerGroup group item : Nat) : Nat :=
  let packed := byteAt planes.base (group * bytesPerGroup + item / 2)
  if item % 2 = 0 then packed &&& 0x0F else (packed >>> 4) &&& 0x0F

/-- The bits above, found by `_high_indices`. -/
def highBits (planes : RowPlanes) (bits bytesPerGroup group item : Nat) :
    Nat :=
  let position := item * (bits - 4)
  (byteAt planes.high (group * bytesPerGroup + position / 8)
    >>> (position % 8)) &&& ((1 <<< (bits - 4)) - 1)

/-- `torch.where((unsigned & sign) != 0, unsigned - range, unsigned)`. -/
def signed (unsigned sign range : Nat) : Int :=
  if unsigned &&& sign ≠ 0 then (unsigned : Int) - range else unsigned

/-- The tensors `decode_row_split_codes` returns: scale words by row and
group, codes by row, group and item. -/
structure DecodedCodes where
  scales : Nat → Nat → Nat
  codes : Nat → Nat → Nat → Int

/-- `_unpack_codes`. -/
def unpackCodes (planes : RowPlanes) (bits groupSize : Nat)
    (geometry : RowSplitGeometry) : DecodedCodes :=
  { scales := fun row group =>
      wordAt planes.scale (row * geometry.groupsPerRow + group)
    codes := fun row group item =>
      let flat := row * geometry.groupsPerRow + group
      if bits = 8 then int8At planes.base (flat * groupSize + item)
      else
        let low := lowBits planes geometry.baseBytesPerGroup flat item
        let unsigned :=
          if bits = 4 then low
          else low ||| (highBits planes bits geometry.highBytesPerGroup
            flat item <<< 4)
        signed unsigned (1 <<< (bits - 1)) (1 <<< bits) }

/-- `_planes_on_device` of a payload. -/
def planesOnDevice (payload : Bytes) (geometry : RowSplitGeometry) :
    Except ArtifactError RowPlanes :=
  if payload.length ≠ geometry.payloadBytes then
    artifactError ("row-split payload has " ++ toString payload.length
      ++ " bytes, expected " ++ toString geometry.payloadBytes)
  else .ok (splitRowPlanes payload geometry)

/-- `decode_row_split_codes`. -/
def decodeRowSplitCodes (payload : Bytes) (format : NumericFormat)
    (shape : List Nat) : Except ArtifactError DecodedCodes :=
  match format with
  | .quant bits groupSize => do
    let geometry ← rowSplitGeometry format shape
    let planes ← planesOnDevice payload geometry
    .ok (unpackCodes planes bits groupSize geometry)
  | _ =>
    artifactError "row-split decoding requires a grouped quantized format"

-- ============ the dequantisers

/-- What a dequantiser multiplies for one element: the code and the scale
word of its group. -/
structure Factors where
  code : Int
  scale : Nat

/-- `_low_g64`. -/
def lowG64 (base : Bytes) (group item : Nat) : Nat :=
  let packed := byteAt base (group * 32 + item / 2)
  if item % 2 = 0 then packed &&& 0x0F else (packed >>> 4) &&& 0x0F

def dequant4 (planes : RowPlanes) (group item : Nat) : Factors :=
  { code := signed (lowG64 planes.base group item) 8 16
    scale := wordAt planes.scale group }

def dequant5 (planes : RowPlanes) (group item : Nat) : Factors :=
  let position := item * (5 - 4)
  let upper :=
    (byteAt planes.high (group * 8 + position / 8) >>> (position % 8)) &&& 1
  { code := signed (lowG64 planes.base group item ||| (upper <<< 4)) 16 32
    scale := wordAt planes.scale group }

def dequant6 (planes : RowPlanes) (group item : Nat) : Factors :=
  let position := item * (6 - 4)
  let upper :=
    (byteAt planes.high (group * 16 + position / 8) >>> (position % 8)) &&& 3
  { code := signed (lowG64 planes.base group item ||| (upper <<< 4)) 32 64
    scale := wordAt planes.scale group }

/-- `_dequant8`: the base plane in as many rows as there are scales. -/
def dequant8 (planes : RowPlanes) (group item : Nat) : Factors :=
  let perGroup := planes.base.length / (planes.scale.length / 2)
  { code := int8At planes.base (group * perGroup + item)
    scale := wordAt planes.scale group }

/-- `_EAGER_DEQUANTIZERS[bits]`. -/
def dequantizer : Nat → RowPlanes → Nat → Nat → Factors
  | 4 => dequant4
  | 5 => dequant5
  | 6 => dequant6
  | _ => dequant8

/-- `dequantize_row_split` into bfloat16: the factors of element
`[row, column]`, the groups laid out again in rows of `k_pad`. -/
def dequantizeRowSplit (payload : Bytes) (format : NumericFormat)
    (shape : List Nat) : Except ArtifactError (Nat → Nat → Factors) :=
  match format with
  | .quant bits groupSize => do
    let geometry ← rowSplitGeometry format shape
    let planes ← planesOnDevice payload geometry
    .ok fun row column =>
      let element := row * geometry.kPad + column
      dequantizer bits planes (element / groupSize) (element % groupSize)
  | _ =>
    artifactError "row-split dequantization requires a grouped quantized format"

end Ginfer.Container
