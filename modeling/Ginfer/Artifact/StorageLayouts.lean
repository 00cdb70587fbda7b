/-
The tensor storage layouts (artifact/storage_layouts.cpp).

A tensor's bytes are laid out in planes, each plane aligned; how many bytes
that is follows from the layout, the numeric format and the shape. The
source computes it in 64-bit words that wrap, behind checks that throw
before one does: the model computes in `UInt64`, which wraps the same.
-/
import Ginfer.Frontend.Text

namespace Ginfer.Artifact

open Ginfer.Lib
open Ginfer.Frontend (Bytes ascii)

-- ============ errors

/-- `ArtifactError`, with its message. -/
structure ArtifactError where
  what : Bytes
deriving DecidableEq

/-- `throw ArtifactError(what)`. -/
def artifactError {α : Type} (what : String) : Except ArtifactError α :=
  .error ⟨ascii what⟩

/-- `std::to_string` of a word. -/
def decimal (n : UInt64) : Bytes := ascii (toString n)

-- ============ arithmetic

/-- `std::numeric_limits<std::uint64_t>::max()`. -/
def u64Max : UInt64 := 0xffffffffffffffff

/-- `checked_add`. -/
def checkedAdd (a b : UInt64) (label : String) : Except ArtifactError UInt64 :=
  if u64Max - a < b then artifactError (label ++ " overflows u64")
  else .ok (a + b)

/-- `checked_mul`. -/
def checkedMul (a b : UInt64) (label : String) : Except ArtifactError UInt64 :=
  if a ≠ 0 ∧ u64Max / a < b then artifactError (label ++ " overflows u64")
  else .ok (a * b)

/-- `align_up`. -/
def alignUp (value alignment : UInt64) (label : String) :
    Except ArtifactError UInt64 := do
  let biased ← checkedAdd value (alignment - 1) label
  .ok (biased / alignment * alignment)

-- ============ formats

/-- `NumericFormat`. -/
inductive NumericFormat where
  | bf16 | fp32 | i32
  | q4g64F16s | q5g64F16s | q6g64F16s | w8g32F16s
  | nvfp4
  | fp8E4m3fnRowBf16s
deriving DecidableEq

/-- `StorageLayout`. -/
inductive StorageLayout where
  | contiguousLeV1
  | rowSplitK128V1
  | blockScaleK16M128x4V1
  | rowScaleV1
deriving DecidableEq

/-- `ResourceEncoding`. -/
inductive ResourceEncoding where
  | rawBytesV1

/-- `kTensorAlignment`. -/
def tensorAlignmentBytes : UInt64 := 256

/-- `kKAlignment`. -/
def kAlignment : UInt64 := 128

/-- `tensor_alignment`. -/
def tensorAlignment (_ : StorageLayout) : UInt64 := tensorAlignmentBytes

/-- `resource_alignment`. -/
def resourceAlignment (_ : ResourceEncoding) : UInt64 := 1

structure QuantGeometry where
  groupSize : UInt64
  baseBytesPerGroup : UInt64
  highBytesPerGroup : UInt64

/-- `quant_geometry`. -/
def quantGeometry : NumericFormat → Except ArtifactError QuantGeometry
  | .q4g64F16s => .ok ⟨64, 32, 0⟩
  | .q5g64F16s => .ok ⟨64, 32, 8⟩
  | .q6g64F16s => .ok ⟨64, 32, 16⟩
  | .w8g32F16s => .ok ⟨32, 32, 0⟩
  | _ =>
    artifactError "row-split-k128-v1 requires a grouped quantized format"

/-- `direct_word_bytes`. -/
def directWordBytes : NumericFormat → Except ArtifactError UInt64
  | .bf16 => .ok 2
  | .fp32 => .ok 4
  | .i32 => .ok 4
  | _ => artifactError "contiguous-le-v1 requires BF16, FP32, or I32"

-- ============ layouts

structure RowSplitGeometry where
  rows : UInt64
  columns : UInt64
  paddedColumns : UInt64
  groupSize : UInt64
  groupsPerRow : UInt64
  lowBytesPerGroup : UInt64
  highBytesPerGroup : UInt64
  lowPlaneBytes : UInt64
  highPlaneOffset : UInt64
  highPlaneBytes : UInt64
  scalePlaneOffset : UInt64
  scalePlaneBytes : UInt64
  encodedBytes : UInt64

structure BlockScaleGeometry where
  rows : UInt64
  columns : UInt64
  groupsPerRow : UInt64
  kTiles : UInt64
  codePlaneBytes : UInt64
  scalePlaneOffset : UInt64
  scalePlaneBytes : UInt64
  weightDivisorOffset : UInt64
  encodedBytes : UInt64

structure RowScaleGeometry where
  rows : UInt64
  columns : UInt64
  codePlaneBytes : UInt64
  scalePlaneOffset : UInt64
  scalePlaneBytes : UInt64
  encodedBytes : UInt64

/-- The two dimensions of a positive rank-two shape. -/
def rankTwo (shape : List UInt64) (layout : String) :
    Except ArtifactError (UInt64 × UInt64) :=
  match shape with
  | [rows, columns] =>
    if rows = 0 ∨ columns = 0 then
      artifactError (layout ++ " requires a positive rank-two shape")
    else .ok (rows, columns)
  | _ => artifactError (layout ++ " requires a positive rank-two shape")

/-- `row_split_geometry`. -/
def rowSplitGeometry (format : NumericFormat) (shape : List UInt64) :
    Except ArtifactError RowSplitGeometry := do
  let (rows, columns) ← rankTwo shape "row-split-k128-v1"
  let quant ← quantGeometry format
  let paddedColumns ← alignUp columns kAlignment "padded K"
  let groupsPerRow := paddedColumns / quant.groupSize
  let groups ← checkedMul rows groupsPerRow "physical group count"
  let lowPlaneBytes ←
    checkedMul groups quant.baseBytesPerGroup "base plane bytes"
  let highPlaneBytes ←
    checkedMul groups quant.highBytesPerGroup "high plane bytes"
  let scalePlaneBytes ← checkedMul groups 2 "scale plane bytes"
  let highPlaneOffset ←
    alignUp lowPlaneBytes tensorAlignmentBytes "high plane offset"
  let alignedHigh ←
    alignUp highPlaneBytes tensorAlignmentBytes "scale plane alignment"
  let scalePlaneOffset ←
    checkedAdd highPlaneOffset alignedHigh "scale plane offset"
  let encodedBytes ←
    checkedAdd scalePlaneOffset scalePlaneBytes "tensor encoded size"
  .ok
    { rows := rows
      columns := columns
      paddedColumns := paddedColumns
      groupSize := quant.groupSize
      groupsPerRow := groupsPerRow
      lowBytesPerGroup := quant.baseBytesPerGroup
      highBytesPerGroup := quant.highBytesPerGroup
      lowPlaneBytes := lowPlaneBytes
      highPlaneOffset := highPlaneOffset
      highPlaneBytes := highPlaneBytes
      scalePlaneOffset := scalePlaneOffset
      scalePlaneBytes := scalePlaneBytes
      encodedBytes := encodedBytes }

/-- `block_scale_geometry`. -/
def blockScaleGeometry (format : NumericFormat) (shape : List UInt64) :
    Except ArtifactError BlockScaleGeometry :=
  if format ≠ .nvfp4 then
    artifactError "blockscale-k16-m128x4-v1 requires NVFP4"
  else do
    let (rows, columns) ← rankTwo shape "blockscale-k16-m128x4-v1"
    if rows % 128 ≠ 0 ∨ columns % 64 ≠ 0 then
      artifactError
        "blockscale-k16-m128x4-v1 requires N divisible by 128 and K divisible by 64"
    else
      let elements ← checkedMul rows columns "NVFP4 element count"
      let codePlaneBytes := elements / 2
      let scalePlaneOffset ←
        alignUp codePlaneBytes tensorAlignmentBytes "NVFP4 scale plane offset"
      let scalePlaneBytes := elements / 16
      let weightDivisorOffset ←
        checkedAdd scalePlaneOffset scalePlaneBytes "NVFP4 weight divisor offset"
      let encodedBytes ←
        checkedAdd weightDivisorOffset 4 "NVFP4 tensor encoded size"
      .ok
        { rows := rows
          columns := columns
          groupsPerRow := columns / 16
          kTiles := columns / 64
          codePlaneBytes := codePlaneBytes
          scalePlaneOffset := scalePlaneOffset
          scalePlaneBytes := scalePlaneBytes
          weightDivisorOffset := weightDivisorOffset
          encodedBytes := encodedBytes }

/-- `row_scale_geometry`. -/
def rowScaleGeometry (format : NumericFormat) (shape : List UInt64) :
    Except ArtifactError RowScaleGeometry :=
  if format ≠ .fp8E4m3fnRowBf16s then
    artifactError "row-scale-v1 requires FP8_E4M3FN_ROW_BF16S"
  else do
    let (rows, columns) ← rankTwo shape "row-scale-v1"
    let codePlaneBytes ← checkedMul rows columns "FP8 element count"
    let scalePlaneOffset ←
      alignUp codePlaneBytes tensorAlignmentBytes "FP8 scale plane offset"
    let scalePlaneBytes ← checkedMul rows 2 "FP8 scale plane bytes"
    let encodedBytes ←
      checkedAdd scalePlaneOffset scalePlaneBytes "FP8 tensor encoded size"
    .ok
      { rows := rows
        columns := columns
        codePlaneBytes := codePlaneBytes
        scalePlaneOffset := scalePlaneOffset
        scalePlaneBytes := scalePlaneBytes
        encodedBytes := encodedBytes }

/-- The element count of `tensor_encoded_size`'s contiguous layout, from
`elements` on. -/
def elementCount : UInt64 → List UInt64 → Except ArtifactError UInt64
  | elements, [] => .ok elements
  | elements, dim :: rest =>
    if dim = 0 then
      artifactError "tensor shape dimensions must be positive"
    else do
      let elements' ← checkedMul elements dim "tensor element count"
      elementCount elements' rest

/-- `tensor_encoded_size`. -/
def tensorEncodedSize (layout : StorageLayout) (format : NumericFormat)
    (shape : List UInt64) : Except ArtifactError UInt64 :=
  match layout with
  | .contiguousLeV1 =>
    if 16 < shape.length then
      artifactError "contiguous-le-v1 supports rank 0 through 16"
    else do
      let elements ← elementCount 1 shape
      let wordBytes ← directWordBytes format
      checkedMul elements wordBytes "tensor encoded size"
  | .rowSplitK128V1 => do
    -- the source checks the shape here and again in the geometry
    let _ ← rankTwo shape "row-split-k128-v1"
    let geometry ← rowSplitGeometry format shape
    .ok geometry.encodedBytes
  | .blockScaleK16M128x4V1 => do
    let geometry ← blockScaleGeometry format shape
    .ok geometry.encodedBytes
  | .rowScaleV1 => do
    let geometry ← rowScaleGeometry format shape
    .ok geometry.encodedBytes

end Ginfer.Artifact
