/-
The other artifact reader (tools/artifact/container.py, layouts.py,
numeric.py).

The tools read the same artifacts in Python, with integers that do not
wrap. Formats and layouts are the rows of two tables found by name, and an
object keeps the names it was found by. The `repr` of a string, which some
error texts use, is a parameter.
-/
import Ginfer.Artifact.Reader

namespace Ginfer.Container

open Ginfer.Lib Ginfer.Artifact
open Ginfer.Frontend (Bytes ascii)

-- ============ numeric

/-- `NumericFormat`: what each class of formats holds. -/
inductive NumericFormat where
  | direct (wordBytes : Nat)
  | quant (bits groupSize : Nat)
  | nvfp4 (groupSize : Nat)
  | fp8Row

/-- `NUMERIC_FORMATS`. -/
def numericFormats : List (Bytes × NumericFormat) :=
  [(ascii "BF16", .direct 2), (ascii "FP32", .direct 4),
    (ascii "I32", .direct 4), (ascii "Q4G64_F16S", .quant 4 64),
    (ascii "Q5G64_F16S", .quant 5 64), (ascii "Q6G64_F16S", .quant 6 64),
    (ascii "W8G32_F16S", .quant 8 32), (ascii "NVFP4", .nvfp4 16),
    (ascii "FP8_E4M3FN_ROW_BF16S", .fp8Row)]

section

variable (strRepr : Bytes → Bytes)

/-- `get_format`. -/
def getFormat (name : Bytes) : Except ArtifactError NumericFormat :=
  match numericFormats.lookup name with
  | some format => .ok format
  | none => .error ⟨ascii "unknown numeric format: " ++ strRepr name⟩

end

-- ============ layouts

/-- The layouts `LAYOUTS` registers. -/
inductive LayoutName where
  | contiguousLeV1
  | rowSplitK128V1
  | blockscaleK16M128x4V1
  | rowScaleV1

/-- `Layout`. -/
structure Layout where
  name : LayoutName
  alignment : Nat
  formats : List Bytes

/-- `LAYOUTS`. -/
def layouts : List (Bytes × Layout) :=
  [(ascii "contiguous-le-v1",
      ⟨.contiguousLeV1, 256, [ascii "BF16", ascii "FP32", ascii "I32"]⟩),
    (ascii "row-split-k128-v1",
      ⟨.rowSplitK128V1, 256,
        [ascii "Q4G64_F16S", ascii "Q5G64_F16S", ascii "Q6G64_F16S",
          ascii "W8G32_F16S"]⟩),
    (ascii "blockscale-k16-m128x4-v1",
      ⟨.blockscaleK16M128x4V1, 256, [ascii "NVFP4"]⟩),
    (ascii "row-scale-v1", ⟨.rowScaleV1, 256, [ascii "FP8_E4M3FN_ROW_BF16S"]⟩)]

/-- `align_up`, of a positive alignment. -/
def alignUp (value alignment : Nat) : Nat :=
  (value + alignment - 1) / alignment * alignment

section

variable (strRepr : Bytes → Bytes)

/-- `get_layout`. -/
def getLayout (name : Bytes) : Except ArtifactError Layout :=
  match layouts.lookup name with
  | some layout => .ok layout
  | none => .error ⟨ascii "unknown tensor layout: " ++ strRepr name⟩

/-- `_shape` with a rank of two. -/
def shapeOfRankTwo (shape : List Nat) : Except ArtifactError (Nat × Nat) :=
  if shape.any (· = 0) then
    artifactError "shape dimensions must be positive integers"
  else
    match shape with
    | [n, k] => .ok (n, k)
    | _ =>
      artifactError ("layout requires rank 2, got rank " ++ toString shape.length)

structure RowSplitGeometry where
  n : Nat
  k : Nat
  kPad : Nat
  groupsPerRow : Nat
  baseBytesPerGroup : Nat
  highBytesPerGroup : Nat
  baseRowBytes : Nat
  highRowBytes : Nat
  scaleRowBytes : Nat
  baseOffset : Nat
  baseBytes : Nat
  highOffset : Nat
  highBytes : Nat
  scaleOffset : Nat
  scaleBytes : Nat
  payloadBytes : Nat

/-- The arithmetic of `row_split_geometry`. -/
def rowSplitOf (bits groupSize n k : Nat) : RowSplitGeometry :=
  let kPad := alignUp k 128
  let groupsPerRow := kPad / groupSize
  let baseBytesPerGroup := if bits = 8 then groupSize else groupSize / 2
  let highBytesPerGroup :=
    if bits = 4 ∨ bits = 8 then 0 else groupSize * (bits - 4) / 8
  let baseRowBytes := groupsPerRow * baseBytesPerGroup
  let highRowBytes := groupsPerRow * highBytesPerGroup
  let scaleRowBytes := groupsPerRow * 2
  let baseBytes := n * baseRowBytes
  let highBytes := n * highRowBytes
  let scaleBytes := n * scaleRowBytes
  let highOffset := alignUp baseBytes 256
  let scaleOffset := highOffset + alignUp highBytes 256
  { n := n
    k := k
    kPad := kPad
    groupsPerRow := groupsPerRow
    baseBytesPerGroup := baseBytesPerGroup
    highBytesPerGroup := highBytesPerGroup
    baseRowBytes := baseRowBytes
    highRowBytes := highRowBytes
    scaleRowBytes := scaleRowBytes
    baseOffset := 0
    baseBytes := baseBytes
    highOffset := highOffset
    highBytes := highBytes
    scaleOffset := scaleOffset
    scaleBytes := scaleBytes
    payloadBytes := scaleOffset + scaleBytes }

/-- `row_split_geometry`. -/
def rowSplitGeometry (format : NumericFormat) (shape : List Nat) :
    Except ArtifactError RowSplitGeometry :=
  match format with
  | .quant bits groupSize => do
    let (n, k) ← shapeOfRankTwo shape
    .ok (rowSplitOf bits groupSize n k)
  | _ =>
    artifactError "row-split-k128-v1 requires a grouped quantized format"

structure BlockScaleGeometry where
  n : Nat
  k : Nat
  groupsPerRow : Nat
  kTiles : Nat
  codePlaneBytes : Nat
  scalePlaneOffset : Nat
  scalePlaneBytes : Nat
  weightDivisorOffset : Nat
  payloadBytes : Nat

/-- The arithmetic of `block_scale_geometry`. -/
def blockScaleOf (groupSize n k : Nat) : BlockScaleGeometry :=
  let codePlaneBytes := n * k / 2
  let scalePlaneOffset := alignUp codePlaneBytes 256
  let scalePlaneBytes := n * k / groupSize
  let weightDivisorOffset := scalePlaneOffset + scalePlaneBytes
  { n := n
    k := k
    groupsPerRow := k / groupSize
    kTiles := k / 64
    codePlaneBytes := codePlaneBytes
    scalePlaneOffset := scalePlaneOffset
    scalePlaneBytes := scalePlaneBytes
    weightDivisorOffset := weightDivisorOffset
    payloadBytes := weightDivisorOffset + 4 }

/-- `block_scale_geometry`. -/
def blockScaleGeometry (format : NumericFormat) (shape : List Nat) :
    Except ArtifactError BlockScaleGeometry :=
  match format with
  | .nvfp4 groupSize => do
    let (n, k) ← shapeOfRankTwo shape
    if n % 128 ≠ 0 ∨ k % 64 ≠ 0 then
      artifactError
        "blockscale-k16-m128x4-v1 requires N divisible by 128 and K divisible by 64"
    else .ok (blockScaleOf groupSize n k)
  | _ => artifactError "blockscale-k16-m128x4-v1 requires NVFP4"

structure RowScaleGeometry where
  n : Nat
  k : Nat
  codePlaneBytes : Nat
  scalePlaneOffset : Nat
  scalePlaneBytes : Nat
  payloadBytes : Nat

/-- The arithmetic of `row_scale_geometry`. -/
def rowScaleOf (n k : Nat) : RowScaleGeometry :=
  let codePlaneBytes := n * k
  let scalePlaneOffset := alignUp codePlaneBytes 256
  let scalePlaneBytes := n * 2
  { n := n
    k := k
    codePlaneBytes := codePlaneBytes
    scalePlaneOffset := scalePlaneOffset
    scalePlaneBytes := scalePlaneBytes
    payloadBytes := scalePlaneOffset + scalePlaneBytes }

/-- `row_scale_geometry`. -/
def rowScaleGeometry (format : NumericFormat) (shape : List Nat) :
    Except ArtifactError RowScaleGeometry :=
  match format with
  | .fp8Row => do
    let (n, k) ← shapeOfRankTwo shape
    .ok (rowScaleOf n k)
  | _ => artifactError "row-scale-v1 requires a row-scaled FP8 format"

/-- The contiguous layout of `encoded_size`. -/
def contiguousSize (format : NumericFormat) (shape : List Nat) :
    Except ArtifactError Nat :=
  match format with
  | .direct wordBytes =>
    if shape.any (· = 0) then
      artifactError "shape dimensions must be positive integers"
    else if 16 < shape.length then
      artifactError "contiguous-le-v1 supports rank 0 through 16"
    else .ok (shape.prod * wordBytes)
  | _ => artifactError "contiguous-le-v1 requires a direct format"

/-- `encoded_size`. -/
def encodedSize (layoutName formatName : Bytes) (shape : List Nat) :
    Except ArtifactError Nat := do
  let layout ← getLayout strRepr layoutName
  let format ← getFormat strRepr formatName
  if formatName ∉ layout.formats then
    .error ⟨ascii "layout " ++ strRepr layoutName
      ++ ascii " does not accept format " ++ strRepr formatName⟩
  else
    match layout.name with
    | .contiguousLeV1 => contiguousSize format shape
    | .rowSplitK128V1 => do
      let geometry ← rowSplitGeometry format shape
      .ok geometry.payloadBytes
    | .blockscaleK16M128x4V1 => do
      let geometry ← blockScaleGeometry format shape
      .ok geometry.payloadBytes
    | .rowScaleV1 => do
      let geometry ← rowScaleGeometry format shape
      .ok geometry.payloadBytes

-- ============ container

/-- `_require_string`. -/
def requireString (value : Json) (field : String) : Except ArtifactError Bytes :=
  match value with
  | .string s =>
    if s.isEmpty then
      artifactError (field ++ " must be a nonempty string")
    else .ok s
  | _ => artifactError (field ++ " must be a nonempty string")

/-- `_require_integer`; a boolean is not of type `int`. -/
def requireInteger (value : Json) (field : String) (positive : Bool) :
    Except ArtifactError Nat :=
  match value with
  | .integer n =>
    if n < (if positive then 1 else 0) then
      artifactError (field ++ " must be "
        ++ if positive then "positive" else "nonnegative")
    else .ok n.toNat
  | _ => artifactError (field ++ " must be an integer")

/-- The dimensions of `_require_shape`. -/
def requireDims : List Json → Except ArtifactError (List Nat)
  | [] => .ok []
  | dim :: rest => do
    let first ← requireInteger dim "shape dimension" true
    let others ← requireDims rest
    .ok (first :: others)

/-- `_require_shape`. -/
def requireShape (value : Json) : Except ArtifactError (List Nat) :=
  match value with
  | .array dims => requireDims dims
  | _ => artifactError "tensor shape must be an array"

/-- `_resource_alignment`. -/
def resourceAlignment (encoding : Bytes) : Except ArtifactError Nat :=
  if encoding ≠ ascii "raw-bytes-v1" then
    .error ⟨ascii "unknown resource encoding: " ++ encoding⟩
  else .ok 1

/-- `TensorObject`. -/
structure TensorObject where
  name : Bytes
  shape : List Nat
  format : Bytes
  layout : Bytes
  offset : Nat
  bytes : Nat

/-- `ResourceObject`. -/
structure ResourceObject where
  name : Bytes
  encoding : Bytes
  offset : Nat
  bytes : Nat

/-- `ArtifactObject`. -/
inductive ArtifactObject where
  | tensor (tensor : TensorObject)
  | resource (resource : ResourceObject)

namespace ArtifactObject

def name : ArtifactObject → Bytes
  | tensor t => t.name
  | resource r => r.name

def offset : ArtifactObject → Nat
  | tensor t => t.offset
  | resource r => r.offset

def bytes : ArtifactObject → Nat
  | tensor t => t.bytes
  | resource r => r.bytes

end ArtifactObject

/-- `object_alignment`. -/
def objectAlignment : ArtifactObject → Except ArtifactError Nat
  | .tensor t => do
    let layout ← getLayout strRepr t.layout
    .ok layout.alignment
  | .resource r => resourceAlignment r.encoding

/-- The keys of a dictionary are exactly these. -/
def hasMembers (value : Json) (members : List String) : Bool :=
  match value with
  | .object entries =>
    (entries.all fun e => members.any fun m => ascii m = e.1)
      && members.all fun m => entries.any fun e => e.1 = ascii m
  | _ => false

/-- The tensor branch of `_parse_object`. -/
def parseTensor (value : Json) : Except ArtifactError TensorObject :=
  if !hasMembers value
      ["name", "kind", "shape", "format", "layout", "offset", "bytes"] then
    artifactError "tensor entry has missing or extra members"
  else do
    let name ← requireString (memberAt "name" value) "tensor name"
    let shape ← requireShape (memberAt "shape" value)
    let formatName ← requireString (memberAt "format" value) "tensor format"
    let layoutName ← requireString (memberAt "layout" value) "tensor layout"
    let offset ←
      requireInteger (memberAt "offset" value) "tensor offset" false
    let payloadBytes ←
      requireInteger (memberAt "bytes" value) "tensor bytes" true
    let expected ← encodedSize strRepr layoutName formatName shape
    if payloadBytes ≠ expected then
      .error ⟨ascii "tensor " ++ name ++ ascii " stores "
        ++ ascii (toString payloadBytes)
        ++ ascii " bytes; layout requires " ++ ascii (toString expected)⟩
    else .ok ⟨name, shape, formatName, layoutName, offset, payloadBytes⟩

/-- The resource branch of `_parse_object`. -/
def parseResource (value : Json) : Except ArtifactError ResourceObject :=
  if !hasMembers value ["name", "kind", "encoding", "offset", "bytes"] then
    artifactError "resource entry has missing or extra members"
  else do
    let name ← requireString (memberAt "name" value) "resource name"
    let encoding ←
      requireString (memberAt "encoding" value) "resource encoding"
    let _ ← resourceAlignment encoding
    let offset ←
      requireInteger (memberAt "offset" value) "resource offset" false
    let payloadBytes ←
      requireInteger (memberAt "bytes" value) "resource bytes" true
    .ok ⟨name, encoding, offset, payloadBytes⟩

/-- The dispatch of `_parse_object` on the kind. -/
def parseKind (value : Json) (kind : Bytes) :
    Except ArtifactError ArtifactObject :=
  if kind = ascii "tensor" then do
    let tensor ← parseTensor strRepr value
    .ok (.tensor tensor)
  else if kind = ascii "resource" then do
    let resource ← parseResource value
    .ok (.resource resource)
  else artifactError "object kind must be 'tensor' or 'resource'"

/-- `_parse_object`. -/
def parseObject (value : Json) : Except ArtifactError ArtifactObject :=
  if !value.isObject then
    artifactError "each object entry must be a JSON object"
  else
    match value.find? (ascii "kind") with
    | some (.string kind) => parseKind strRepr value kind
    | _ => artifactError "object kind must be 'tensor' or 'resource'"

/-- The objects of `parse_directory`. -/
def parseObjects : List Json → Except ArtifactError (List ArtifactObject)
  | [] => .ok []
  | item :: rest => do
    let first ← parseObject strRepr item
    let others ← parseObjects rest
    .ok (first :: others)

/-- The loop over the names in `parse_directory`. -/
def checkNames : List Bytes → List ArtifactObject → Except ArtifactError Unit
  | _, [] => .ok ()
  | names, obj :: rest =>
    if obj.name ∈ names then
      .error ⟨ascii "duplicate object name: " ++ obj.name⟩
    else checkNames (obj.name :: names) rest

/-- The identity of `parse_directory`. -/
def parseIdentity (value : Json) : Except ArtifactError ArtifactIdentity :=
  if !hasMembers value ["identity", "objects"] then
    artifactError "directory root must contain exactly identity and objects"
  else
    let raw := memberAt "identity" value
    if !hasMembers raw ["model_id", "weights_id"] then
      artifactError
        "artifact identity must contain exactly model_id and weights_id"
    else do
      let modelId ← requireString (memberAt "model_id" raw) "model_id"
      let weightsId ← requireString (memberAt "weights_id" raw) "weights_id"
      .ok ⟨modelId, weightsId⟩

/-- The raw objects of `parse_directory`. -/
def parseRawObjects (value : Json) : Except ArtifactError (List Json) :=
  match memberAt "objects" value with
  | .array [] => artifactError "objects must be a nonempty array"
  | .array items => .ok items
  | _ => artifactError "objects must be a nonempty array"

/-- `parse_directory`, of a parsed value. -/
def parseDirectory (value : Json) :
    Except ArtifactError (ArtifactIdentity × List ArtifactObject) := do
  let identity ← parseIdentity value
  let raw ← parseRawObjects value
  let objects ← parseObjects strRepr raw
  checkNames [] objects
  .ok (identity, objects)

/-- `_validate_ranges`, from the cursor on. -/
def validateRanges (payloadBytes : Nat) :
    Nat → List ArtifactObject → Except ArtifactError Unit
  | _, [] => .ok ()
  | cursor, obj :: rest => do
    let alignment ← objectAlignment strRepr obj
    if obj.offset < cursor then
      .error ⟨ascii "object " ++ obj.name ++ ascii " overlaps or is out of order"⟩
    else if obj.offset % alignment ≠ 0 then
      .error ⟨ascii "object " ++ obj.name ++ ascii " is not "
        ++ ascii (toString alignment) ++ ascii "-byte aligned"⟩
    else if payloadBytes < obj.offset + obj.bytes then
      .error ⟨ascii "object " ++ obj.name ++ ascii " extends beyond the file"⟩
    else validateRanges payloadBytes (obj.offset + obj.bytes) rest

/-- `Artifact`. -/
structure Artifact where
  fileBytes : Nat
  identity : ArtifactIdentity
  objects : List ArtifactObject
  payloadOffset : Nat

/-- The prefix checks of `Artifact.__init__`. -/
def readPrefix (file : ArtifactFile) : Except ArtifactError Nat :=
  if file.size < 16 then
    artifactError "artifact is shorter than the v2 prefix"
  else if file.magic = v1Magic then
    artifactError
      "GInfer artifact v1 is no longer supported; replace it with the published version-2 artifact"
  else if file.magic ≠ artifactMagic then
    artifactError "artifact magic is not GInfer v2"
  else if file.jsonBytes = 0 then
    artifactError "json_bytes must be positive"
  else
    let metadataEnd := 16 + file.jsonBytes.toNat
    let payloadOffset := alignUp metadataEnd 4096
    if file.size < metadataEnd ∨ file.size < payloadOffset then
      artifactError "declared JSON or payload start extends beyond the file"
    else .ok payloadOffset

/-- `Artifact.__init__`. -/
def Artifact.make (file : ArtifactFile) :
    Except ArtifactError Artifact := do
  let payloadOffset ← readPrefix file
  let value ← readDirectory file
  let (identity, objects) ← parseDirectory strRepr value
  validateRanges strRepr (file.size - payloadOffset) 0 objects
  .ok ⟨file.size, identity, objects, payloadOffset⟩

end

end Ginfer.Container
