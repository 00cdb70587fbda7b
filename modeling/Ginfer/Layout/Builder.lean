/-
Device layouts (core/{dtype,tensor,layout}.cpp) and the planners of the
state that is laid out with them (core/paged_kv_cache.cpp,
core/cyclic_kv_cache.cpp, core/gdn_replay_records.cpp,
core/linear_attention_state.cpp).

A layout is planned before anything is allocated: `LayoutBuilder` hands
out regions one after the other, each at the next multiple of its
alignment. A planner is a sequence of such calls between the checks of
its spec. It stores the regions in the fields of its layout; here they
are kept in one list, under the labels they are planned with.

Dimensions are `std::int32_t`, sizes `std::size_t`.
-/
import Ginfer.Lib.Ahead
import Ginfer.Executor.KvCapacity
import Ginfer.Pool.PagedKV

namespace Ginfer.Layout

open Ginfer.Lib
open Ginfer.KvCapacity (checkedAdd)
open Ginfer.Pool (pagedKVPageSize)

-- ============ the tensors

/-- `DType`. -/
inductive DType where
  | bf16 | fp32 | i32 | u8 | i64 | i8 | fp16 | fp8E4m3fn
  deriving DecidableEq

/-- `dtype_size`. -/
def DType.size : DType → Nat
  | .bf16 => 2
  | .fp32 => 4
  | .i32 => 4
  | .u8 => 1
  | .i64 => 8
  | .i8 => 1
  | .fp16 => 2
  | .fp8E4m3fn => 1

/-- `checked_mul_i64`. -/
def checkedMulI64 (a b : Int) : Except Exception Int :=
  if a < 0 ∨ b < 0 then
    .error (.invalidArgument "tensor dimensions must be positive")
  else if b ≠ 0 ∧ (2 ^ 63 - 1) / b < a then
    .error (.overflowError "tensor size overflows int64")
  else .ok (a * b)

/-- `normalize_shape`. -/
def normalizeShape (shape : List Int) : Except Exception (List Int) :=
  if shape = [] ∨ 4 < shape.length then
    .error (.invalidArgument "tensor rank must be in [1,4]")
  else if shape.any (· ≤ 0) then
    .error (.invalidArgument "tensor dimensions must be positive")
  else .ok (shape ++ List.replicate (4 - shape.length) 1)

/-- `set_contiguous_strides`, from a stride on. -/
def contiguousStrides (stride : Int) : List Int → Except Exception (List Int)
  | [] => .ok []
  | [_] => .ok [stride]
  | dim :: rest => do
    let next ← checkedMulI64 stride dim
    let more ← contiguousStrides next rest
    return stride :: more

/-- `shape_numel`, from a product on. -/
def shapeNumel (total : Int) : List Int → Except Exception Int
  | [] => .ok total
  | dim :: rest =>
    if dim ≤ 0 then
      .error (.invalidArgument "tensor dimensions must be positive")
    else do
      let next ← checkedMulI64 total dim
      shapeNumel next rest

/-- `Tensor`, without data. -/
structure Tensor where
  dtype : DType
  ne : List Int
  nb : List Int
  deriving DecidableEq

/-- The constructor of `Tensor`. -/
def Tensor.make (dtype : DType) (shape : List Int) :
    Except Exception Tensor := do
  let ne ← normalizeShape shape
  let nb ← contiguousStrides dtype.size ne
  return ⟨dtype, ne, nb⟩

/-- `Tensor::bytes`. -/
def Tensor.bytes (t : Tensor) : Except Exception Nat := do
  let elements ← shapeNumel 1 t.ne
  if elements < 0 ∨ 2 ^ 64 - 1 < elements then
    throw (.overflowError "tensor element count overflows size_t")
  if t.dtype.size ≠ 0 ∧ (2 ^ 64 - 1) / t.dtype.size < elements.toNat then
    throw (.overflowError "tensor byte size overflows size_t")
  return elements.toNat * t.dtype.size

-- ============ the builder

/-- `is_power_of_two`. -/
def isPowerOfTwo (value : Nat) : Bool :=
  value != 0 && value &&& (value - 1) == 0

/-- `align_up`. -/
def alignUp (value alignment : Nat) (label : String) : Except Exception Nat :=
  if !isPowerOfTwo alignment then
    .error (.invalidArgument (label ++ " alignment must be a power of two"))
  else
    (checkedAdd value (alignment - 1) (label ++ " size overflow")).map
      (· &&& (2 ^ 64 - 1 - (alignment - 1)))

/-- `LayoutRegion`. -/
structure LayoutRegion where
  offset : Nat
  bytes : Nat
  alignment : Nat
  deriving DecidableEq

/-- `LayoutBuilder`. -/
structure LayoutBuilder where
  cursor : Nat := 0
  peak : Nat := 0

namespace LayoutBuilder

/-- `LayoutBuilder::add`. -/
def add (b : LayoutBuilder) (bytes alignment : Nat) (label : String) :
    Except Exception (LayoutRegion × LayoutBuilder) :=
  if bytes = 0 then
    .error (.invalidArgument (label ++ " must not be empty"))
  else do
    let offset ← alignUp b.cursor alignment label
    let cursor ← checkedAdd offset bytes (label ++ " size overflow")
    return (⟨offset, bytes, alignment⟩, ⟨cursor, max b.peak cursor⟩)

/-- `LayoutBuilder::finish`. -/
def finish (b : LayoutBuilder) (alignment : Nat) (label : String) :
    Except Exception Nat :=
  alignUp b.peak alignment label

end LayoutBuilder

-- ============ the planners

/-- A builder, and the regions it has handed out with their labels. -/
structure Planned where
  builder : LayoutBuilder := {}
  regions : List (String × LayoutRegion) := []

/-- A planner's calls. -/
abbrev Planning := StateT Planned (Except Exception)

/-- `builder.add`. -/
def region (bytes alignment : Nat) (label : String) : Planning Unit :=
  fun s => do
    let (out, builder) ← s.builder.add bytes alignment label
    return ((), ⟨builder, s.regions ++ [(label, out)]⟩)

/-- `builder.add_tensor`. -/
def addTensor (dtype : DType) (shape : List Int) (alignment : Nat)
    (label : String) : Planning Unit := do
  let tensor ← checked (Tensor.make dtype shape)
  let bytes ← checked tensor.bytes
  region bytes alignment label

-- ============ the paged KV pool

/-- `checked_i32` of the pool. -/
def checkedPageI32 (value : Nat) (label : String) : Except Exception Int :=
  if value = 0 ∨ 2 ^ 31 - 1 < value then
    .error (.invalidArgument (label ++ " must fit positive int32"))
  else .ok value

/-- `PagedKVPlaneOrder`. -/
inductive PagedKVPlaneOrder where
  | pageMajor
  | headMajor

/-- `PagedKVPlaneSpec`. -/
structure PagedKVPlaneSpec where
  dtype : DType
  leadingExtent : Int
  headExtent : Int
  alignment : Nat

/-- `PagedKVPoolSpec`, as it is planned. -/
structure PagedKVPoolSpec where
  pageGroupCount : Nat
  logicalPageCapacity : Nat
  tableRows : Int
  planeOrder : PagedKVPlaneOrder := .pageMajor
  planes : List PagedKVPlaneSpec

/-- A plane's shape: its pages last, or before its heads. -/
def PagedKVPlaneSpec.shape (plane : PagedKVPlaneSpec)
    (order : PagedKVPlaneOrder) (pages : Int) : List Int :=
  match order with
  | .pageMajor =>
    [plane.leadingExtent, pagedKVPageSize, plane.headExtent, pages]
  | .headMajor =>
    [plane.leadingExtent, pagedKVPageSize, pages, plane.headExtent]

/-- The loop's body of `plan_paged_kv_pool`. -/
def planPlane (order : PagedKVPlaneOrder) (pages : Int)
    (entry : PagedKVPlaneSpec × Nat) : Planning Unit := do
  let plane := entry.1
  refuse (plane.leadingExtent ≤ 0 ∨ plane.headExtent ≤ 0)
    (.invalidArgument "Paged KV plane extents must be positive")
  addTensor plane.dtype (plane.shape order pages) plane.alignment
    ("Paged KV plane " ++ toString entry.2)

/-- `plan_paged_kv_pool`. -/
def planPagedKVPool (spec : PagedKVPoolSpec) : Planning Unit := do
  let physicalPages ← checked
    (checkedPageI32 spec.pageGroupCount "Paged KV page count")
  let logicalPages ← checked
    (checkedPageI32 spec.logicalPageCapacity "Paged KV logical page capacity")
  refuse (spec.tableRows ≤ 0)
    (.invalidArgument "Paged KV table row count must be positive")
  refuse (spec.planes = []) (.invalidArgument "Paged KV pool must contain planes")
  spec.planes.zipIdx.forM (planPlane spec.planeOrder physicalPages)
  addTensor .i32 [logicalPages, spec.tableRows] 256 "Paged KV block tables"

-- ============ the cyclic KV cache

/-- `align_up_u32`, to 128. -/
def paddedCapacity (value : Nat) : Except Exception Nat :=
  let aligned := (value + 127) / 128 * 128
  if 2 ^ 31 - 1 < aligned then
    .error (.invalidArgument "Cyclic KV padded capacity is out of range")
  else .ok aligned

/-- `plan_cyclic_kv_cache`. -/
def planCyclicKVCache (layers capacity : Nat)
    (numKVHeads headDim laneCapacity : Int) : Planning Unit := do
  refuse (layers = 0 ∨ capacity = 0 ∨ 2 ^ 31 - 1 < capacity
      ∨ numKVHeads ≤ 0 ∨ headDim ≤ 0 ∨ laneCapacity ≤ 0)
    (.invalidArgument "Cyclic KV geometry is invalid")
  let padded ← checked (paddedCapacity capacity)
  (List.range layers).forM fun layer => do
    let label := "Cyclic KV layer " ++ toString layer
    addTensor .bf16 [headDim, padded, numKVHeads, laneCapacity] 256
      (label ++ " K")
    addTensor .bf16 [headDim, padded, numKVHeads, laneCapacity] 256
      (label ++ " V")

-- ============ the GDN replay records

/-- `GdnReplayRecordSpec`. -/
structure GdnReplayRecordSpec where
  layers : Int
  recordCapacity : Int
  width : Int
  convChannels : Int
  qkHeads : Int
  valueHeads : Int
  keyDim : Int
  valueDim : Int

/-- `require_positive`. -/
def requirePositive (value : Int) (label : String) : Planning Unit :=
  refuse (value ≤ 0)
    (.invalidArgument ("GDN replay " ++ label ++ " must be positive"))

/-- `checked_outer_extent`. -/
def checkedOuterExtent (spec : GdnReplayRecordSpec) : Except Exception Int :=
  if (2 ^ 31 - 1) / spec.recordCapacity < spec.layers then
    .error (.overflowError "GDN replay layer/row extent exceeds int32")
  else .ok (spec.layers * spec.recordCapacity)

/-- `validate_spec` of the records. -/
def GdnReplayRecordSpec.validate (spec : GdnReplayRecordSpec) :
    Planning Unit := do
  requirePositive spec.layers "layer count"
  requirePositive spec.recordCapacity "record capacity"
  requirePositive spec.width "width"
  requirePositive spec.convChannels "convolution channel count"
  requirePositive spec.qkHeads "Q/K head count"
  requirePositive spec.valueHeads "value head count"
  requirePositive spec.keyDim "key dimension"
  requirePositive spec.valueDim "value dimension"
  refuse (8 < spec.recordCapacity)
    (.invalidArgument "GDN replay record capacity exceeds eight rows")
  refuse (spec.valueHeads % spec.qkHeads ≠ 0)
    (.invalidArgument "GDN replay value heads must be grouped by Q/K heads")
  let _ ← checked (checkedOuterExtent spec)

/-- `plan_gdn_replay_records`. -/
def planGdnReplayRecords (spec : GdnReplayRecordSpec) : Planning Unit := do
  spec.validate
  let outer ← checked (checkedOuterExtent spec)
  addTensor .bf16 [spec.convChannels, spec.width, outer] 256
    "GDN replay conv records"
  addTensor .bf16 [spec.keyDim, spec.qkHeads, spec.width, outer] 256
    "GDN replay key records"
  addTensor .bf16 [spec.valueDim, spec.valueHeads, spec.width, outer] 256
    "GDN replay value records"
  addTensor .fp32 [2, spec.valueHeads, spec.width, outer] 256
    "GDN replay gate records"

-- ============ the linear attention states

/-- `LinearAttentionStatePoolSpec`. -/
structure LinearAttentionStatePoolSpec where
  layers : Nat
  convChannels : Int
  convWidth : Int
  valueHeads : Int
  valueHeadDim : Int
  keyHeadDim : Int
  slotCount : Int
  convDType : DType

/-- `validate_positive`. -/
def validatePositive (value : Int) (field : String) : Planning Unit :=
  refuse (value ≤ 0)
    (.invalidArgument
      ("LinearAttentionStatePool " ++ field ++ " must be positive"))

/-- `plan_linear_attention_state_pool`. -/
def planLinearAttentionStatePool (spec : LinearAttentionStatePoolSpec) :
    Planning Unit := do
  refuse (spec.layers = 0)
    (.invalidArgument "LinearAttentionStatePool layers must be nonzero")
  refuse (2 ^ 31 - 1 < spec.layers)
    (.overflowError "LinearAttentionStatePool layer count exceeds int32")
  validatePositive spec.convChannels "conv_channels"
  validatePositive spec.convWidth "conv_width"
  validatePositive spec.valueHeads "value_heads"
  validatePositive spec.valueHeadDim "value_head_dim"
  validatePositive spec.keyHeadDim "key_head_dim"
  validatePositive spec.slotCount "slot_count"
  refuse (spec.convDType ≠ .bf16 ∧ spec.convDType ≠ .fp32)
    (.invalidArgument "LinearAttentionStatePool conv_dtype must be BF16 or FP32")
  let convShape ← checked (Tensor.make spec.convDType
    [spec.convChannels, spec.convWidth, spec.slotCount])
  let recurrentShape ← checked (Tensor.make .fp32
    [spec.keyHeadDim, spec.valueHeadDim, spec.valueHeads, spec.slotCount])
  (List.range spec.layers).forM fun layer => do
    let label := "Linear Attention layer " ++ toString layer
    let convBytes ← checked convShape.bytes
    region convBytes 256 (label ++ " conv")
    let recurrentBytes ← checked recurrentShape.bytes
    region recurrentBytes 256 (label ++ " recurrent")

end Ginfer.Layout
