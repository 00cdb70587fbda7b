/-
The workspace of GQA attention, planned and used (ops/wrapper/
gqa_attention.cpp, and `gqa_attention_split_capacity` of
ops/launcher/gqa_attention_decode.cu).

A call of up to six columns keeps one partial result for each split; a
wider one is either cut into chunks of six, each in a scope of its own, or
goes to the prompt kernels, which need no workspace. The planner takes the
largest need of the widths of an interval, for one batch size and one
envelope.

What a call asks of its workspace are `WorkspaceCall`s. Of the checks of
the two ops those on batch, width and envelope are kept, with the capacity
of the cache and the rows of its tables; the shapes and the pointers of
the tensors are taken to be right.
-/
import Ginfer.Layout.Workspace
import Ginfer.Ops.GqaDecodePages

namespace Ginfer.Ops

open Ginfer.Lib
open Ginfer.Layout

-- ============ shapes

/-- `kSmallTChunkTokens`. -/
def smallTChunkTokens : Nat := 6

/-- `kMaximumVerifyTokens`. -/
def maximumVerifyTokens : Nat := 16

/-- `kMaximumBatchSize`. -/
def maximumBatchSize : Nat := 8

/-- `Geometry::QHeads`. -/
def GqaGeometry.qHeads : GqaGeometry → Int
  | .gqa27 => 24
  | .gqa35 => 16
  | .gqaMuse => 32

/-- `GqaRegisteredShape`. -/
structure GqaRegisteredShape where
  qHeads : Int
  kvHeads : Int
  headDim : Int

/-- `shape_for_q_heads`. -/
def shapeForQHeads (qHeads : Int) (op : String) :
    Except Exception GqaRegisteredShape :=
  if qHeads = 24 then .ok ⟨24, 4, 256⟩
  else if qHeads = 16 then .ok ⟨16, 2, 256⟩
  else if qHeads = 32 then .ok ⟨32, 2, 128⟩
  else
    .error (.invalidArgument (op ++ ": unsupported Q/KV head geometry"))

/-- The cache format of a dtype. -/
def kvDType : DType → Option KVDType
  | .bf16 => some .bf16
  | .i8 => some .i8
  | _ => none

/-- `gqa_attention_split_capacity`. -/
def gqaAttentionSplitCapacity (qHeads tokens : Int) (cacheDtype : DType)
    (e : GqaExecutionEnvelope) (o : OccupancyPolicy) :
    Except Exception Nat :=
  let invalid : Except Exception Nat := .error (.invalidArgument
    "gqa_attention split capacity: invalid profile")
  match kvDType cacheDtype with
  | none => invalid
  | some dtype =>
    if tokens < 1 ∨ 6 < tokens ∨ e.minVisibleKeys = 0
        ∨ e.maxVisibleKeys < e.minVisibleKeys then invalid
    else if qHeads = GqaGeometry.gqa27.qHeads then
      .ok (gqaSmallTLaunchCapacity .gqa27 e tokens.toNat dtype o)
    else if qHeads = GqaGeometry.gqa35.qHeads then
      .ok (gqaSmallTLaunchCapacity .gqa35 e tokens.toNat dtype o)
    else if qHeads = GqaGeometry.gqaMuse.qHeads then
      .ok (gqaSmallTLaunchCapacity .gqaMuse e tokens.toNat dtype o)
    else .error (.invalidArgument
      "gqa_attention split capacity: unsupported head geometry")

/-- `allocate_small_t_workspace`. -/
def allocateSmallTWorkspace (headDim qHeads tokens splits batchSize : Int) :
    List WorkspaceCall :=
  [.alloc .bf16 [headDim, qHeads, tokens, splits * batchSize] 256,
    .alloc .fp32 [qHeads, tokens, splits * batchSize] 256,
    .alloc .fp32 [qHeads, tokens, splits * batchSize] 256]

-- ============ routes

/-- `GqaAttentionRoute`. -/
inductive GqaAttentionRoute where
  | smallT
  | chunkedSmallT
  | prompt
  deriving DecidableEq

/-- `gqa_attention_resolve_route`. -/
def gqaAttentionResolveRoute (qHeads width batchSize : Int)
    (e : GqaExecutionEnvelope) : GqaAttentionRoute :=
  if 1 ≤ width ∧ width ≤ smallTChunkTokens then .smallT
  else if 1 < batchSize then .chunkedSmallT
  else
    let promptVisibleKeys :=
      if width ≤ 2 * smallTChunkTokens then 512 else 1024
    if qHeads = 16 ∧ width ≤ maximumVerifyTokens
        ∧ promptVisibleKeys < e.maxVisibleKeys then .chunkedSmallT
    else .prompt

/-- The columns of each chunk of a loop over a width. -/
def smallTChunks (width : Int) : List Int :=
  (List.range (divUp width.toNat smallTChunkTokens)).map fun chunk =>
    min smallTChunkTokens (width - chunk * smallTChunkTokens)

-- ============ the plan

section

variable (qHeads : Int) (cacheDtype : DType) (e : GqaExecutionEnvelope)
  (o : OccupancyPolicy)

/-- `chunk_capacity`. -/
def chunkCapacity (headDim batchSize width : Int) :
    Except Exception Nat := do
  let splits ← gqaAttentionSplitCapacity qHeads width cacheDtype e o
  let layout ← DryRun.run {}
    (allocateSmallTWorkspace headDim qHeads width splits batchSize)
  layout.builder.peakBytes 1

/-- The largest of some capacities, from one on. -/
def maximumOf (capacity : Int → Except Exception Nat) (maximum : Nat)
    (widths : List Int) : Except Exception Nat :=
  widths.foldlM (fun maximum width => (capacity width).map (max maximum)) maximum

/-- `exact_capacity`. -/
def exactCapacity (headDim batchSize width : Int) : Except Exception Nat :=
  match gqaAttentionResolveRoute qHeads width batchSize e with
  | .prompt => .ok 0
  | .smallT => chunkCapacity qHeads cacheDtype e o headDim batchSize width
  | .chunkedSmallT =>
    maximumOf (chunkCapacity qHeads cacheDtype e o headDim batchSize) 0
      (smallTChunks width)

/-- `gqa_attention_workspace_capacity_bytes`. -/
def gqaAttentionWorkspaceCapacityBytes (batchSize minWidth maxWidth : Int) :
    Except Exception Nat := do
  let shape ← shapeForQHeads qHeads "gqa_attention workspace"
  if (kvDType cacheDtype).isNone ∨ batchSize ≤ 0
      ∨ maximumBatchSize < batchSize ∨ minWidth ≤ 0 ∨ maxWidth < minWidth
      ∨ (1 < batchSize ∧ maximumVerifyTokens < maxWidth)
      ∨ e.minVisibleKeys = 0 ∨ e.maxVisibleKeys < e.minVisibleKeys
      ∨ gqaAttentionMaximumVisibleKeys < e.maxVisibleKeys
      ∨ e.maxVisibleKeys < maxWidth then
    .error (.invalidArgument
      "gqa_attention workspace: invalid profile or interval")
  else
    maximumOf (exactCapacity qHeads cacheDtype e o shape.headDim batchSize) 0
      ((List.range (min maxWidth maximumVerifyTokens + 1 - minWidth).toNat).map
        fun (step : Nat) => minWidth + step)

end

-- ============ the calls

/-- A call of either op: what its tensors and its cache say. -/
structure GqaAttentionCall where
  qHeads : Int
  cacheDtype : DType
  width : Int
  batch : Int
  envelope : GqaExecutionEnvelope
  /-- the keys the pages of a row hold -/
  capacity : Nat
  /-- the rows of the block tables -/
  tableRows : Int

namespace GqaAttentionCall

variable (c : GqaAttentionCall) (o : OccupancyPolicy)

/-- The partial results of a chunk, for a batch. -/
def chunkCalls (headDim batch count : Int) :
    Except Exception (List WorkspaceCall) := do
  let splits ← gqaAttentionSplitCapacity c.qHeads count c.cacheDtype c.envelope o
  return allocateSmallTWorkspace headDim c.qHeads count splits batch

/-- `launch_chunked_small_t`, and `launch_cached_chunked_small_t` for a
batch of one. -/
def chunkedCalls (headDim batch : Int) :
    Except Exception (List WorkspaceCall) := do
  let chunks ← (smallTChunks c.width).mapM fun count => do
    let calls ← c.chunkCalls o headDim batch count
    return .enter :: calls ++ [.leave]
  return chunks.flatten

/-- What the launches of `gqa_attention` ask for. -/
def routeCalls (headDim : Int) : Except Exception (List WorkspaceCall) :=
  match gqaAttentionResolveRoute c.qHeads c.width c.batch c.envelope with
  | .chunkedSmallT => c.chunkedCalls o headDim c.batch
  | .smallT => c.chunkCalls o headDim c.batch c.width
  | .prompt => .ok []

/-- What `gqa_attention` asks of its workspace. -/
def gqaAttention : Except Exception (List WorkspaceCall) := do
  let shape ← shapeForQHeads c.qHeads "gqa_attention"
  if c.width ≤ 0 ∨ c.batch ≤ 0 ∨ maximumBatchSize < c.batch
      ∨ (1 < c.batch ∧ maximumVerifyTokens < c.width) then
    .error (.invalidArgument "gqa_attention: unsupported B/W domain")
  else if c.tableRows < c.batch ∨ c.envelope.minVisibleKeys = 0
      ∨ c.envelope.maxVisibleKeys < c.envelope.minVisibleKeys
      ∨ gqaAttentionMaximumVisibleKeys < c.envelope.maxVisibleKeys
      ∨ c.capacity < c.envelope.maxVisibleKeys
      ∨ c.envelope.maxVisibleKeys < c.width then
    .error (.invalidArgument "gqa_attention: invalid execution envelope or table")
  else
    (c.routeCalls o shape.headDim).map fun calls =>
      .enter :: calls ++ [.leave]

/-- What the launches of `gqa_attention_cached` ask for; its tensors have no
batch. -/
def cachedRouteCalls (headDim : Int) : Except Exception (List WorkspaceCall) :=
  if gqaAttentionResolveRoute c.qHeads c.width 1 c.envelope
      = .chunkedSmallT then
    c.chunkedCalls o headDim 1
  else if 1 ≤ c.width ∧ c.width ≤ 6 then
    c.chunkCalls o headDim 1 c.width
  else .ok []

/-- What `gqa_attention_cached` asks of its workspace. -/
def gqaAttentionCached : Except Exception (List WorkspaceCall) := do
  let shape ← shapeForQHeads c.qHeads "gqa_attention_cached"
  if c.width ≤ 0 then
    .error (.invalidArgument "gqa_attention_cached: T must be positive")
  else if c.envelope.minVisibleKeys = 0
      ∨ c.envelope.maxVisibleKeys < c.envelope.minVisibleKeys
      ∨ gqaAttentionMaximumVisibleKeys < c.envelope.maxVisibleKeys
      ∨ c.capacity < c.envelope.maxVisibleKeys then
    .error (.invalidArgument "gqa_attention_cached: invalid execution envelope")
  else if c.envelope.maxVisibleKeys < c.width then
    .error (.invalidArgument
      "gqa_attention_cached: execution envelope is shorter than T")
  else
    (c.cachedRouteCalls o shape.headDim).map fun calls =>
      .enter :: calls ++ [.leave]

end GqaAttentionCall

end Ginfer.Ops
