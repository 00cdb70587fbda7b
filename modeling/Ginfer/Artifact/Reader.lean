/-
The artifact reader (artifact/reader.cpp).

An artifact is a prefix, a JSON directory, and payloads. The reader maps
the file, checks the prefix, and takes the directory's entries in order:
each is parsed, and its payload must begin where the one before it ended or
later, be aligned, and end within the file.

The file is what the reader sees of it: its size, which the system gives
as a signed 64-bit number, the first eight bytes and the word after them,
and the directory the JSON library parses from the bytes that word counts.
A parsed value is one whose objects are maps (`Json.Canonical`).
-/
import Ginfer.Lib.Json
import Ginfer.Artifact.StorageLayouts

namespace Ginfer.Artifact

open Ginfer.Lib
open Ginfer.Frontend (Bytes ascii)

-- ============ the file

/-- A file, as `MappedFile` maps it and the JSON library parses it. -/
structure ArtifactFile where
  size : Nat
  magic : Bytes
  jsonBytes : UInt64
  directory : Except Bytes { value : Json // value.Canonical }
  size_lt : size < 2 ^ 63

/-- `kMagic`. -/
def artifactMagic : Bytes := ascii "NINFER" ++ [0, 2]

/-- `kV1Magic`. -/
def v1Magic : Bytes := ascii "NINFER" ++ [0, 1]

/-- `kPrefixBytes`. -/
def prefixBytes : UInt64 := 16

/-- `kPayloadAlignment`. -/
def payloadAlignment : UInt64 := 4096

-- ============ the members

/-- `value.at(key)` of a member that is there. -/
def memberAt (key : String) (value : Json) : Json :=
  (value.find? (ascii key)).getD .null

/-- `require_members`. -/
def requireMembers (value : Json) (members : List String)
    (label : String) : Except ArtifactError Unit :=
  match value with
  | .object entries =>
    if entries.length ≠ members.length
        ∨ ¬ members.all fun m => (value.find? (ascii m)).isSome then
      artifactError (label ++ " has missing or extra members")
    else .ok ()
  | _ => artifactError (label ++ " has missing or extra members")

/-- `require_string`. -/
def requireString (value : Json) (label : String) : Except ArtifactError Bytes :=
  match value with
  | .string s =>
    if s.isEmpty then
      artifactError (label ++ " must be a nonempty string")
    else .ok s
  | _ => artifactError (label ++ " must be a nonempty string")

/-- `require_unsigned`. A number is unsigned when it is an integer of the
text that fits a word. -/
def requireUnsigned (value : Json) (label : String) (positive : Bool) :
    Except ArtifactError UInt64 :=
  match value with
  | .integer n =>
    if n < 0 ∨ 2 ^ 64 ≤ n then
      artifactError (label ++ " must be an integer")
    else if positive ∧ n = 0 then
      artifactError (label ++ " must be positive")
    else .ok (UInt64.ofNat n.toNat)
  | _ => artifactError (label ++ " must be an integer")

-- ============ the names

/-- `format_name`. -/
def formatName : NumericFormat → Bytes
  | .bf16 => ascii "BF16"
  | .fp32 => ascii "FP32"
  | .i32 => ascii "I32"
  | .q4g64F16s => ascii "Q4G64_F16S"
  | .q5g64F16s => ascii "Q5G64_F16S"
  | .q6g64F16s => ascii "Q6G64_F16S"
  | .w8g32F16s => ascii "W8G32_F16S"
  | .nvfp4 => ascii "NVFP4"
  | .fp8E4m3fnRowBf16s => ascii "FP8_E4M3FN_ROW_BF16S"

/-- `layout_name`. -/
def layoutName : StorageLayout → Bytes
  | .contiguousLeV1 => ascii "contiguous-le-v1"
  | .rowSplitK128V1 => ascii "row-split-k128-v1"
  | .blockScaleK16M128x4V1 => ascii "blockscale-k16-m128x4-v1"
  | .rowScaleV1 => ascii "row-scale-v1"

/-- `encoding_name`. -/
def encodingName : ResourceEncoding → Bytes
  | .rawBytesV1 => ascii "raw-bytes-v1"

/-- `parse_format`. -/
def parseFormat (name : Bytes) : Except ArtifactError NumericFormat :=
  if name = ascii "BF16" then .ok .bf16
  else if name = ascii "FP32" then .ok .fp32
  else if name = ascii "I32" then .ok .i32
  else if name = ascii "Q4G64_F16S" then .ok .q4g64F16s
  else if name = ascii "Q5G64_F16S" then .ok .q5g64F16s
  else if name = ascii "Q6G64_F16S" then .ok .q6g64F16s
  else if name = ascii "W8G32_F16S" then .ok .w8g32F16s
  else if name = ascii "NVFP4" then .ok .nvfp4
  else if name = ascii "FP8_E4M3FN_ROW_BF16S" then .ok .fp8E4m3fnRowBf16s
  else .error ⟨ascii "unknown tensor format: " ++ name⟩

/-- `parse_layout`. -/
def parseLayout (name : Bytes) : Except ArtifactError StorageLayout :=
  if name = ascii "contiguous-le-v1" then .ok .contiguousLeV1
  else if name = ascii "row-split-k128-v1" then .ok .rowSplitK128V1
  else if name = ascii "blockscale-k16-m128x4-v1" then
    .ok .blockScaleK16M128x4V1
  else if name = ascii "row-scale-v1" then .ok .rowScaleV1
  else .error ⟨ascii "unknown tensor layout: " ++ name⟩

/-- `parse_encoding`. -/
def parseEncoding (name : Bytes) : Except ArtifactError ResourceEncoding :=
  if name = ascii "raw-bytes-v1" then .ok .rawBytesV1
  else .error ⟨ascii "unknown resource encoding: " ++ name⟩

-- ============ the objects

structure TensorDescriptor where
  name : Bytes
  shape : List UInt64
  format : NumericFormat
  layout : StorageLayout
  offset : UInt64
  bytes : UInt64

structure ResourceDescriptor where
  name : Bytes
  encoding : ResourceEncoding
  offset : UInt64
  bytes : UInt64

/-- `ObjectDescriptor`. -/
inductive ObjectDescriptor where
  | tensor (tensor : TensorDescriptor)
  | resource (resource : ResourceDescriptor)

namespace ObjectDescriptor

/-- `object_name`. -/
def name : ObjectDescriptor → Bytes
  | tensor t => t.name
  | resource r => r.name

/-- `object_offset`. -/
def offset : ObjectDescriptor → UInt64
  | tensor t => t.offset
  | resource r => r.offset

/-- `object_bytes`. -/
def bytes : ObjectDescriptor → UInt64
  | tensor t => t.bytes
  | resource r => r.bytes

/-- The alignment of an object's payload. -/
def alignment : ObjectDescriptor → UInt64
  | tensor t => tensorAlignment t.layout
  | resource r => resourceAlignment r.encoding

end ObjectDescriptor

/-- The dimensions of `parse_tensor`'s shape. -/
def parseShape : List Json → Except ArtifactError (List UInt64)
  | [] => .ok []
  | dim :: rest => do
    let first ← requireUnsigned dim "shape dimension" true
    let others ← parseShape rest
    .ok (first :: others)

/-- The shape of `parse_tensor`. -/
def requireShape (value : Json) : Except ArtifactError (List UInt64) :=
  match value with
  | .array dims => parseShape dims
  | _ => artifactError "tensor shape must be an array"

/-- `parse_tensor`. -/
def parseTensor (value : Json) : Except ArtifactError TensorDescriptor := do
  requireMembers value
    ["name", "kind", "shape", "format", "layout", "offset", "bytes"]
    "tensor entry"
  let name ← requireString (memberAt "name" value) "tensor name"
  let formatText ← requireString (memberAt "format" value) "tensor format"
  let format ← parseFormat formatText
  let layoutText ← requireString (memberAt "layout" value) "tensor layout"
  let layout ← parseLayout layoutText
  let offset ←
    requireUnsigned (memberAt "offset" value) "tensor offset" false
  let storedSize ←
    requireUnsigned (memberAt "bytes" value) "tensor bytes" true
  let shape ← requireShape (memberAt "shape" value)
  let expectedSize ← tensorEncodedSize layout format shape
  if storedSize ≠ expectedSize then
    .error ⟨ascii "tensor " ++ name ++ ascii " stores "
      ++ decimal storedSize ++ ascii " bytes; layout requires "
      ++ decimal expectedSize⟩
  else .ok ⟨name, shape, format, layout, offset, storedSize⟩

/-- `parse_resource`. -/
def parseResource (value : Json) :
    Except ArtifactError ResourceDescriptor := do
  requireMembers value ["name", "kind", "encoding", "offset", "bytes"]
    "resource entry"
  let name ← requireString (memberAt "name" value) "resource name"
  let encodingText ←
    requireString (memberAt "encoding" value) "resource encoding"
  let encoding ← parseEncoding encodingText
  let offset ←
    requireUnsigned (memberAt "offset" value) "resource offset" false
  let bytes ← requireUnsigned (memberAt "bytes" value) "resource bytes" true
  .ok ⟨name, encoding, offset, bytes⟩

/-- The dispatch of `parse_object` on the kind. -/
def parseKind (value : Json) (kind : Bytes) :
    Except ArtifactError ObjectDescriptor :=
  if kind = ascii "tensor" then do
    let tensor ← parseTensor value
    .ok (.tensor tensor)
  else if kind = ascii "resource" then do
    let resource ← parseResource value
    .ok (.resource resource)
  else artifactError "object kind must be 'tensor' or 'resource'"

/-- `parse_object`. -/
def parseObject (value : Json) : Except ArtifactError ObjectDescriptor :=
  if !value.isObject then
    artifactError "each object entry must be a JSON object"
  else
    match value.find? (ascii "kind") with
    | some (.string kind) => parseKind value kind
    | _ => artifactError "object kind must be 'tensor' or 'resource'"

-- ============ the reader

structure ArtifactIdentity where
  modelId : Bytes
  weightsId : Bytes

/-- `Reader::Impl`; `index` finds an entry by its name. -/
structure Reader where
  fileBytes : Nat
  identity : ArtifactIdentity
  entries : List ObjectDescriptor
  payloadStart : UInt64

/-- The range checks of the constructor's loop, with where the payload
ends. -/
def checkRange (payloadBytes cursor : UInt64)
    (entries : List ObjectDescriptor) (object : ObjectDescriptor) :
    Except ArtifactError UInt64 :=
  if object.offset < cursor then
    .error ⟨ascii "object " ++ object.name
      ++ ascii " overlaps or is out of order"⟩
  else if object.offset % object.alignment ≠ 0 then
    .error ⟨ascii "object " ++ object.name ++ ascii " is not "
      ++ decimal object.alignment ++ ascii "-byte aligned"⟩
  else do
    let last ← checkedAdd object.offset object.bytes "object payload range"
    if payloadBytes < last then
      .error ⟨ascii "object " ++ object.name ++ ascii " extends beyond the file"⟩
    else if entries.any fun e => e.name = object.name then
      .error ⟨ascii "duplicate object name: " ++ object.name⟩
    else .ok last

/-- The loop of the constructor. -/
def readObjects (payloadBytes : UInt64) :
    UInt64 → List ObjectDescriptor → List Json →
      Except ArtifactError (List ObjectDescriptor)
  | _, entries, [] => .ok entries
  | cursor, entries, raw :: rest => do
    let object ← parseObject raw
    let cursor' ← checkRange payloadBytes cursor entries object
    readObjects payloadBytes cursor' (entries ++ [object]) rest

/-- The prefix checks: where the payloads start. -/
def readPrefix (file : ArtifactFile) : Except ArtifactError UInt64 :=
  if file.size < prefixBytes.toNat then
    artifactError "artifact is shorter than the v2 prefix"
  else if file.magic = v1Magic then
    artifactError
      "GInfer artifact v1 is no longer supported; replace it with the published version-2 artifact"
  else if file.magic ≠ artifactMagic then
    artifactError "artifact magic is not GInfer v2"
  else if file.jsonBytes = 0 then
    artifactError "json_bytes must be positive"
  else do
    let metadataEnd ← checkedAdd prefixBytes file.jsonBytes "JSON range"
    let payloadStart ←
      alignUp metadataEnd payloadAlignment "payload offset"
    if file.size < metadataEnd.toNat ∨ file.size < payloadStart.toNat then
      artifactError "declared JSON or payload start extends beyond the file"
    else .ok payloadStart

/-- The directory's identity. -/
def readIdentity (directory : Json) :
    Except ArtifactError ArtifactIdentity := do
  requireMembers directory ["identity", "objects"] "directory root"
  let raw := memberAt "identity" directory
  requireMembers raw ["model_id", "weights_id"] "artifact identity"
  let modelId ← requireString (memberAt "model_id" raw) "model_id"
  let weightsId ← requireString (memberAt "weights_id" raw) "weights_id"
  .ok ⟨modelId, weightsId⟩

/-- The directory's raw objects. -/
def readRawObjects (directory : Json) : Except ArtifactError (List Json) :=
  match memberAt "objects" directory with
  | .array [] => artifactError "objects must be a nonempty array"
  | .array items => .ok items
  | _ => artifactError "objects must be a nonempty array"

/-- The parsed directory. -/
def readDirectory (file : ArtifactFile) : Except ArtifactError Json :=
  match file.directory with
  | .ok value => .ok value.val
  | .error what => .error ⟨ascii "invalid JSON directory: " ++ what⟩

/-- `Reader::Impl`'s constructor. -/
def Reader.make (file : ArtifactFile) : Except ArtifactError Reader := do
  let payloadStart ← readPrefix file
  let directory ← readDirectory file
  let identity ← readIdentity directory
  let raw ← readRawObjects directory
  let payloadBytes := UInt64.ofNat file.size - payloadStart
  let entries ← readObjects payloadBytes 0 [] raw
  .ok ⟨file.size, identity, entries, payloadStart⟩

end Ginfer.Artifact
