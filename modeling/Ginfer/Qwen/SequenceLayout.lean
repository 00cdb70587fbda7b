/-
The sequence layout and its finalisation
(targets/qwen3_6/impl/runtime/layouts_impl.h,
targets/qwen3_6/impl/state/{decoder_state,round_state}.cpp).

A planner builds the layout for the least number of page groups and for
one more, and offers the difference as the bytes of a page group. When
the number is resolved, `finalize_sequence_plan_impl` builds the layout
for it and throws if it is not what that curve says.

The constants of an exact variant are a `Variant`. The capacity of the
workspace and the output of the vision context are fields of it: no page
count is among their arguments.
-/
import Ginfer.Layout.Builder
import Ginfer.Qwen.GraphProfiles
import Ginfer.Qwen.MtpAlignment
import Ginfer.Qwen.State

namespace Ginfer.Qwen

open Ginfer.Lib
open Ginfer.Layout
open Ginfer.Admission (maximumConcurrency)
open Ginfer.KvCapacity (KvCapacityMode KvCapacityPolicy
  SequenceCapacityCurve checkedAdd checkedMul)
open Ginfer.Pool (pagedKVPageSize)

-- ============ the variants

/-- `ProposalHead`. -/
inductive ProposalHead where
  | full
  | optimized
  deriving DecidableEq

/-- `StartupFeatures`. -/
structure StartupFeatures where
  vision : Bool
  speculative : SpeculativeBackend
  proposalHead : ProposalHead
  deriving DecidableEq

/-- `mtp`. -/
def StartupFeatures.mtp (f : StartupFeatures) : Bool :=
  f.speculative = .mtp

/-- `dflash`. -/
def StartupFeatures.dflash (f : StartupFeatures) : Bool :=
  f.speculative = .dflash

/-- `SequencePlanningInputs`; the profile of the weights, the occupancy
and the device are the variant's. -/
structure SequencePlanningInputs where
  capacity : Nat
  maxConcurrency : Nat
  prefillChunk : Nat
  draftWindow : Nat
  speculativeBackend : SpeculativeBackend
  kvDType : DType
  kvQuantGroup : Int
  proposalHead : ProposalHead
  features : StartupFeatures
  useCudaGraph : Bool
  deriving DecidableEq

/-- What of a `Variant` the layout reads. -/
structure Variant where
  maximumContext : Nat
  maximumMtpDraftTokens : Nat
  maximumDFlashDraftTokens : Nat
  supportsDFlash : Bool
  fullAttentionLayers : Nat
  mtpLayers : Nat
  kvHeads : Int
  headDim : Int
  gdnLayers : Nat
  convolutionDim : Int
  gdnConvStateWidth : Int
  gdnKeyHeads : Int
  gdnKeyHeadDim : Int
  gdnValueHeads : Int
  gdnValueHeadDim : Int
  hidden : Int
  outputRows : Int
  tokenDomain : Int
  dflashSampled : Bool
  dflashLocalLayers : Nat
  dflashLocalCapacity : Nat
  dflashKVHeads : Int
  dflashHeadDim : Int
  dflashFullLayers : Nat
  dflashFeatureRows : Int
  dflashSelectorTopK : Nat
  /-- `build_workspace_plan(plan).capacity` -/
  workspaceCapacity : SequencePlanningInputs → Except Exception Nat
  /-- `schedule::VisionContext::output_transient_bytes` -/
  outputTransientBytes : Nat → Except Exception Nat
  mtpGraphProfiles : Nat → Nat → List GraphExecutionProfile
  dflashGraphProfiles : Nat → Nat → Nat → List GraphExecutionProfile

/-- `checked_i32`, with what it throws. -/
def checkedI32 (value : Nat) (label : String) : Except Exception Int :=
  if value = 0 ∨ 2 ^ 31 - 1 < value then .error (.overflowError label)
  else .ok value

/-- `page_count`. -/
def pageCount (capacity : Nat) : Except Exception Nat :=
  if capacity = 0 then
    .error (.invalidArgument "Paged KV capacity must be positive")
  else .ok (1 + (capacity - 1) / pagedKVPageSize)

/-- `kKvQuantGroup`. -/
def kvQuantGroup : Int := 64

/-- `kMtpDecodeMaximumDrafts`. -/
def mtpDecodeMaximumDrafts : Nat := 5

/-- `kDFlashDecodeMaximumDrafts`. -/
def dflashDecodeMaximumDrafts : Nat := 15

/-- `dflash_target_drafts`. -/
def dflashTargetDrafts (v : Variant) (plan : SequencePlanningInputs) : Nat :=
  if !plan.features.dflash then 0
  else if v.dflashSampled then dflashDecodeMaximumDrafts
  else plan.draftWindow

-- ============ the decoder state

/-- The planes of a layer: keys and values, and their scales where they
are quantized. -/
def layerPlanes (dtype : DType) (headDim kvHeads quantGroup : Int) :
    List PagedKVPlaneSpec :=
  [⟨dtype, headDim, kvHeads, 256⟩, ⟨dtype, headDim, kvHeads, 256⟩]
    ++ if dtype = .i8 then
      [⟨.fp16, headDim / quantGroup, kvHeads, 256⟩,
        ⟨.fp16, headDim / quantGroup, kvHeads, 256⟩]
    else []

/-- `plan_cache`. -/
def planCache (layers capacity : Nat) (kvHeads headDim : Int)
    (dtype : DType) (quantGroup tableRows : Int)
    (physicalPageGroups : Nat) : Planning Unit := do
  refuse (layers = 0 ∨ 2 ^ 31 - 1 < layers ∨ kvHeads ≤ 0 ∨ headDim ≤ 0
      ∨ tableRows ≤ 0)
    (.invalidArgument "Paged KV cache geometry is invalid")
  refuse ((dtype ≠ .i8 ∧ (dtype ≠ .bf16 ∨ quantGroup ≠ 0))
      ∨ (dtype = .i8 ∧ (quantGroup ≠ kvQuantGroup ∨ headDim % quantGroup ≠ 0)))
    (.invalidArgument "Paged KV cache dtype or quantization is invalid")
  let logicalPages ← checked (pageCount capacity)
  refuse (physicalPageGroups < logicalPages)
    (.invalidArgument "Paged KV physical pages are below logical capacity")
  planPagedKVPool {
    pageGroupCount := physicalPageGroups
    logicalPageCapacity := logicalPages
    tableRows := tableRows
    planes := (List.range layers).flatMap fun _ =>
      layerPlanes dtype headDim kvHeads quantGroup }

/-- `LinearStateSlots::state_slot_count`. -/
def stateSlotCount (maxConcurrency : Nat) : Except Exception Int :=
  if maxConcurrency = 0 ∨ (2 ^ 31 - 1) / 2 < maxConcurrency then
    .error (.invalidArgument "Qwen3.6 Linear Attention concurrency is invalid")
  else .ok (2 * maxConcurrency)

/-- `plan_decoder_state`, with the spec `persistent_layout` gives it. -/
def planDecoderState (v : Variant) (plan : SequencePlanningInputs)
    (linearStateSlots : Int) (physicalPages mtpPhysicalPages : Nat) :
    Planning Unit := do
  planCache v.fullAttentionLayers plan.capacity v.kvHeads v.headDim
    plan.kvDType plan.kvQuantGroup (castInt32 plan.maxConcurrency)
    physicalPages
  if plan.features.mtp then
    planCache v.mtpLayers plan.capacity v.kvHeads v.headDim plan.kvDType
      plan.kvQuantGroup (castInt32 plan.maxConcurrency) mtpPhysicalPages
  planLinearAttentionStatePool {
    layers := v.gdnLayers
    convChannels := v.convolutionDim
    convWidth := v.gdnConvStateWidth
    valueHeads := v.gdnValueHeads
    valueHeadDim := v.gdnValueHeadDim
    keyHeadDim := v.gdnKeyHeadDim
    slotCount := linearStateSlots
    convDType := .bf16 }

-- ============ the round state

/-- `RoundStateSpec`. -/
structure RoundStateSpec where
  hidden : Int
  outputRows : Int
  batchCapacity : Nat
  draftWindow : Nat
  dflashTargetWindow : Nat
  dflashSelectorTopK : Nat
  enableMtp : Bool
  enableDFlash : Bool

/-- `checked_i32` of the round state. -/
def roundI32 (value : Nat) (label : String) : Except Exception Int :=
  if 2 ^ 31 - 1 < value then .error (.invalidArgument label)
  else .ok value

/-- `validate_spec` of the round state. -/
def RoundStateSpec.validate (spec : RoundStateSpec) : Planning Unit := do
  refuse (spec.enableMtp ∧ spec.enableDFlash) (.invalidArgument
    "RoundState speculative extensions are mutually exclusive")
  refuse (spec.hidden ≤ 0) (.invalidArgument "RoundState hidden must be positive")
  refuse (spec.outputRows ≤ 0)
    (.invalidArgument "RoundState output_rows must be positive")
  refuse (spec.enableMtp ∧ spec.draftWindow = 0) (.invalidArgument
    "RoundState cannot enable MTP with an empty draft window")
  refuse (spec.enableMtp ∧ mtpDecodeMaximumDrafts < spec.draftWindow)
    (.invalidArgument
      "RoundState MTP draft window exceeds the decode frame domain")
  refuse (spec.enableDFlash ∧ (spec.draftWindow = 0
      ∨ dflashDecodeMaximumDrafts < spec.draftWindow))
    (.invalidArgument
      "RoundState DFlash draft window exceeds the decode frame domain")
  refuse (spec.enableDFlash ∧ (spec.dflashTargetWindow < spec.draftWindow
      ∨ dflashDecodeMaximumDrafts < spec.dflashTargetWindow))
    (.invalidArgument ("RoundState DFlash target window is outside the "
      ++ "decode frame domain"))
  refuse (¬ spec.enableDFlash ∧ spec.dflashTargetWindow ≠ 0)
    (.invalidArgument "RoundState target window requires DFlash")
  refuse (¬ spec.enableDFlash ∧ spec.dflashSelectorTopK ≠ 0)
    (.invalidArgument "RoundState DFlash selector requires DFlash")
  refuse (64 < spec.dflashSelectorTopK)
    (.invalidArgument "RoundState DFlash selector top-k exceeds 64")
  refuse (spec.batchCapacity = 0 ∨ maximumConcurrency < spec.batchCapacity)
    (.invalidArgument "RoundState batch capacity must be in [1,8]")
  let _ ← checked (roundI32 (spec.draftWindow + 1)
    "RoundState draft window exceeds int32")
  let _ ← checked (roundI32 (spec.dflashTargetWindow + 1)
    "RoundState DFlash target window exceeds int32")

/-- `add_tensor` of the layouts, at `kArenaAlign`. -/
def arenaTensor (dtype : DType) (shape : List Int) (label : String) :
    Planning Unit := addTensor dtype shape 256 label

/-- `sizeof(ops::SamplingConfig)`. -/
def samplingConfigBytes : Nat := 40

/-- `sizeof` of an ingress or egress: so many words, and the sampling
configurations of every row. -/
def frameBytes (words rows : Nat) : Nat :=
  4 * words + rows * samplingConfigBytes

/-- `begin_round_state_layout`. -/
def beginRoundStateLayout (spec : RoundStateSpec) : Planning Unit := do
  spec.validate
  if !spec.enableMtp && !spec.enableDFlash then
    region (frameBytes (5 * maximumConcurrency) maximumConcurrency) 256
      "ordinary decode ingress"
    region (frameBytes maximumConcurrency 0) 256 "ordinary decode egress"
    let batch ← checked (roundI32 spec.batchCapacity "RoundState batch capacity")
    arenaTensor .bf16 [spec.outputRows, batch] "ordinary decode logits"
    arenaTensor .bf16 [spec.hidden, batch] "ordinary decode hidden"
  arenaTensor .i32 [1] "step token"
  arenaTensor .i32 [1] "step position"
  arenaTensor .i32 [1] "step rope position"
  arenaTensor .i32 [1] "step rope delta"
  arenaTensor .bf16 [spec.outputRows, 1] "step logits"
  arenaTensor .i32 [1] "step Text KV table row"
  arenaTensor .i32 [1] "step backend KV table row"

/-- The MTP half of `complete_round_state_layout`. -/
def completeMtpLayout (spec : RoundStateSpec) (columns drafts : Int) :
    Planning Unit := do
  let arSteps ← checked (roundI32 (max 1 (spec.draftWindow - 1))
    "RoundState MTP AR steps exceed int32")
  arenaTensor .i32 [1] "MTP prefill autoregressive position"
  arenaTensor .bf16 [spec.hidden, 1] "MTP prefill autoregressive hidden"
  arenaTensor .i32 [drafts] "MTP prefill draft tokens"
  arenaTensor .i32 [columns] "MTP prefill target input ids"
  arenaTensor .i32 [columns] "MTP prefill target positions"
  region (frameBytes (9 * maximumConcurrency
      + maximumConcurrency * mtpDecodeMaximumDrafts
      + maximumConcurrency * (mtpDecodeMaximumDrafts + 1))
    maximumConcurrency) 256 "MTP decode ingress"
  region (frameBytes (3 * maximumConcurrency
      + maximumConcurrency * mtpDecodeMaximumDrafts
      + maximumConcurrency * (mtpDecodeMaximumDrafts + 1)) 0) 256
    "MTP decode egress"
  let batch ← checked (roundI32 spec.batchCapacity
    "RoundState MTP batch capacity exceeds int32")
  arenaTensor .i32 [columns, batch] "MTP decode verify ids"
  arenaTensor .i32 [columns, batch] "MTP decode target positions"
  arenaTensor .i32 [columns, batch] "MTP decode target argmax"
  arenaTensor .bf16 [spec.outputRows, columns, batch] "MTP decode target logits"
  arenaTensor .bf16 [spec.hidden, columns, batch] "MTP decode target hidden"
  arenaTensor .bf16 [spec.hidden, batch] "MTP decode target continuation hidden"
  arenaTensor .bf16 [spec.outputRows, batch] "MTP decode proposal logits"
  arenaTensor .i32 [columns, batch] "MTP decode alignment ids"
  arenaTensor .bf16 [spec.hidden, columns, batch] "MTP decode alignment hidden"
  arenaTensor .bf16 [spec.hidden, batch] "MTP decode autoregressive hidden"
  arenaTensor .bf16 [spec.hidden, batch] "MTP decode next hidden"
  arenaTensor .i32 [batch, arSteps] "MTP decode autoregressive positions"
  arenaTensor .i32 [batch, arSteps] "MTP decode autoregressive rope positions"
  arenaTensor .i32 [batch, arSteps] "MTP decode autoregressive valid columns"

/-- The DFlash half of `complete_round_state_layout`. -/
def completeDFlashLayout (spec : RoundStateSpec) (columns : Int) :
    Planning Unit := do
  let targetColumns ← checked (roundI32 (spec.dflashTargetWindow + 1)
    "RoundState DFlash target columns exceed int32")
  let targetDrafts := targetColumns - 1
  arenaTensor .i32 [1] "DFlash prefill produced count"
  region (frameBytes (12 * maximumConcurrency
      + maximumConcurrency * dflashDecodeMaximumDrafts)
    maximumConcurrency) 256 "DFlash decode ingress"
  region (frameBytes (2 * maximumConcurrency
      + maximumConcurrency * (dflashDecodeMaximumDrafts + 1)) 0) 256
    "DFlash decode egress"
  let batch ← checked (roundI32 spec.batchCapacity
    "RoundState DFlash batch capacity exceeds int32")
  arenaTensor .i32 [columns, batch] "DFlash proposal ids"
  arenaTensor .i32 [columns, batch] "DFlash proposal positions"
  arenaTensor .i32 [targetColumns, batch] "DFlash target positions"
  arenaTensor .i32 [targetColumns, batch] "DFlash append positions"
  arenaTensor .i32 [batch] "DFlash append counts"
  arenaTensor .i32 [columns - 1, batch] "DFlash learned proposal draft tokens"
  arenaTensor .i32 [targetDrafts, batch] "DFlash fused proposal draft tokens"
  if spec.dflashSelectorTopK ≠ 0 then
    let topK ← checked (roundI32 spec.dflashSelectorTopK
      "DFlash selector top-k exceeds int32")
    arenaTensor .i32 [topK, columns - 1, batch]
      "DFlash learned proposal candidates"
    arenaTensor .fp32 [topK, columns - 1, batch]
      "DFlash learned proposal probabilities"
    arenaTensor .i32 [topK, targetDrafts, batch]
      "DFlash fused proposal candidates"
    arenaTensor .fp32 [topK, targetDrafts, batch]
      "DFlash fused proposal probabilities"
  arenaTensor .i32 [targetColumns, batch] "DFlash target verify ids"
  arenaTensor .i32 [targetColumns, batch] "DFlash target argmax"
  arenaTensor .bf16 [spec.outputRows, targetColumns, batch] "DFlash target logits"
  arenaTensor .bf16 [spec.hidden, targetColumns, batch] "DFlash target hidden"
  arenaTensor .bf16 [spec.hidden, batch] "DFlash target continuation hidden"

/-- `complete_round_state_layout`. -/
def completeRoundStateLayout (spec : RoundStateSpec) : Planning Unit := do
  spec.validate
  let columns ← checked
    (roundI32 (spec.draftWindow + 1) "RoundState columns exceed int32")
  let drafts ← checked
    (roundI32 (max 1 spec.draftWindow) "RoundState drafts exceed int32")
  if spec.enableMtp then completeMtpLayout spec columns drafts
  if spec.enableDFlash then completeDFlashLayout spec columns

-- ============ the persistent layout

/-- The spec of a replay record set of so many columns. -/
def replaySpec (v : Variant) (plan : SequencePlanningInputs)
    (width : Nat) : GdnReplayRecordSpec where
  layers := v.gdnLayers
  recordCapacity := castInt32 plan.maxConcurrency
  width := castInt32 width
  convChannels := v.convolutionDim
  qkHeads := v.gdnKeyHeads
  valueHeads := v.gdnValueHeads
  keyDim := v.gdnKeyHeadDim
  valueDim := v.gdnValueHeadDim

/-- The replay records of `persistent_layout`. -/
def planReplayRecords (v : Variant) (plan : SequencePlanningInputs) :
    Planning Unit := do
  planGdnReplayRecords (replaySpec v plan (u32Add plan.draftWindow 1))
  if plan.features.dflash
      ∧ plan.draftWindow < dflashTargetDrafts v plan then
    planGdnReplayRecords
      (replaySpec v plan (u32Add (dflashTargetDrafts v plan) 1))

/-- The two cyclic caches of DFlash. -/
def planDFlashLocal (v : Variant) (plan : SequencePlanningInputs) :
    Planning Unit := do
  planCyclicKVCache v.dflashLocalLayers v.dflashLocalCapacity
    v.dflashKVHeads v.dflashHeadDim (castInt32 plan.maxConcurrency)
  planCyclicKVCache v.dflashLocalLayers v.dflashLocalCapacity
    v.dflashKVHeads v.dflashHeadDim (castInt32 plan.maxConcurrency)

/-- `full_pool`. -/
def dflashFullPool (v : Variant) (plan : SequencePlanningInputs)
    (logicalPages physicalPages : Nat) : PagedKVPoolSpec where
  pageGroupCount := physicalPages
  logicalPageCapacity := logicalPages
  tableRows := castInt32 plan.maxConcurrency
  planeOrder := .headMajor
  planes :=
    [⟨.bf16, v.dflashHeadDim, v.dflashKVHeads, 256⟩,
      ⟨.bf16, v.dflashHeadDim, v.dflashKVHeads, 256⟩]

/-- The features DFlash is given. -/
def planDFlashFeatures (v : Variant) (plan : SequencePlanningInputs)
    (effectivePrefillChunk : Int) : Planning Unit := do
  arenaTensor .bf16 [v.dflashFeatureRows, effectivePrefillChunk]
    "DFlash prefill target features"
  arenaTensor .i32 [effectivePrefillChunk] "DFlash prefill target positions"
  arenaTensor .bf16
    [v.dflashFeatureRows, castInt32 (u32Add (dflashTargetDrafts v plan) 1),
      castInt32 plan.maxConcurrency] "DFlash pending target features"

/-- What `persistent_layout` lays out for DFlash. -/
def planDFlash (v : Variant) (plan : SequencePlanningInputs)
    (logicalPages physicalPages : Nat) (effectivePrefillChunk : Int) :
    Planning Unit := do
  planDFlashLocal v plan
  if 0 < v.dflashFullLayers then
    planPagedKVPool (dflashFullPool v plan logicalPages physicalPages)
  planDFlashFeatures v plan effectivePrefillChunk

/-- The spec of the round state. -/
def roundStateSpec (v : Variant) (plan : SequencePlanningInputs) :
    RoundStateSpec where
  hidden := v.hidden
  outputRows := v.outputRows
  batchCapacity := plan.maxConcurrency
  draftWindow := plan.draftWindow
  dflashTargetWindow := dflashTargetDrafts v plan
  dflashSelectorTopK :=
    if plan.features.dflash && v.dflashSampled then v.dflashSelectorTopK
    else 0
  enableMtp := plan.features.mtp
  enableDFlash := plan.features.dflash

/-- What `persistent_layout` lays out behind the caches. -/
def planRoundTail (v : Variant) (plan : SequencePlanningInputs)
    (effectivePrefillChunk : Int) : Planning Unit := do
  beginRoundStateLayout (roundStateSpec v plan)
  arenaTensor .bf16 [v.hidden, effectivePrefillChunk] "step prefill hidden"
  completeRoundStateLayout (roundStateSpec v plan)
  let rows := castInt32 plan.maxConcurrency
  arenaTensor .i32 [v.tokenDomain, rows] "sampling token counts"
  arenaTensor .i32 [((samplingConfigBytes + 4 - 1) / 4 : Nat), rows]
    "sampling config"
  arenaTensor .bf16 [v.hidden, rows] "tail hidden"
  arenaTensor .bf16 [v.hidden, rows] "rewrite checkpoint hidden"

/-- `mtp_extra_pages`. -/
def mtpExtraPages (plan : SequencePlanningInputs) : Nat :=
  if plan.features.mtp then
    plan.maxConcurrency
      * ((u32Sub plan.draftWindow 1 + pagedKVPageSize - 1) / pagedKVPageSize)
  else 0

/-- The builder's calls of `persistent_layout`, for so many page groups. -/
def planPersistent (v : Variant) (plan : SequencePlanningInputs)
    (physicalPages : Nat) : Planning Unit := do
  let linearStateSlots ← checked (stateSlotCount plan.maxConcurrency)
  let effectivePrefillChunk :=
    castInt32 (min plan.prefillChunk plan.capacity)
  let logicalPages ← checked (pageCount plan.capacity)
  let mtpPhysicalPages ← checked
    (checkedI32 (physicalPages + mtpExtraPages plan)
      "MTP Paged KV physical pages exceed int32")
  planDecoderState v plan linearStateSlots physicalPages mtpPhysicalPages.toNat
  if plan.speculativeBackend ≠ .none then planReplayRecords v plan
  if v.supportsDFlash && plan.features.dflash then
    planDFlash v plan logicalPages physicalPages effectivePrefillChunk
  planRoundTail v plan effectivePrefillChunk

/-- `PersistentLayout`. -/
structure PersistentLayout where
  regions : List (String × LayoutRegion)
  bytes : Nat

/-- `persistent_layout`. -/
def persistentLayout (v : Variant) (plan : SequencePlanningInputs)
    (mainPageGroups : Nat) : Except Exception PersistentLayout := do
  let ((), planned) ← planPersistent v plan mainPageGroups {}
  let bytes ← planned.builder.finish 256 "persistent layout"
  return ⟨planned.regions, bytes⟩

-- ============ the candidates

/-- `classes.emplace_back`, or the larger allowance of the class. -/
def addTopologyClass (profile allowance : Nat) :
    List (Nat × Nat) → List (Nat × Nat)
  | [] => [(profile, allowance)]
  | entry :: rest =>
    if entry.1 = profile then (entry.1, max entry.2 allowance) :: rest
    else entry :: addTopologyClass profile allowance rest

/-- `graph_topology_allowance`. -/
def graphTopologyAllowance (profiles : List GraphExecutionProfile)
    (allowance : GraphExecutionProfile → Nat) (label : String) :
    Except Exception Nat :=
  let classes := profiles.foldl (fun classes profile =>
    addTopologyClass profile.topologyClass (allowance profile) classes) []
  classes.foldlM (fun total entry => checkedAdd total entry.2 label) 0

/-- `kMiB`. -/
def mib : Nat := 1024 * 1024

/-- `class_allowance` of DFlash. -/
def dflashClassAllowance (v : Variant) (plan : SequencePlanningInputs)
    (batchSize targetWindow : Nat) : Except Exception Nat :=
  graphTopologyAllowance
    (v.dflashGraphProfiles plan.capacity targetWindow batchSize)
    (fun profile =>
      let finalVisible :=
        min plan.capacity (profile.max + targetWindow + 1)
      (if finalVisible ≤ 4096 then 64 else 96) * mib)
    "DFlash graph allowance"

/-- `graph_allowance_bytes`. -/
def graphAllowance (v : Variant) (plan : SequencePlanningInputs) :
    Except Exception Nat :=
  if !plan.useCudaGraph then .ok 0
  else
    match plan.speculativeBackend with
    | .none =>
      checkedMul (12 * mib) plan.maxConcurrency "ordinary exact-b graph allowance"
    | .mtp => do
      let perBatch ← graphTopologyAllowance
        (v.mtpGraphProfiles plan.capacity plan.draftWindow)
        (fun profile =>
          let finalVisible :=
            min plan.capacity (profile.max + 2 * plan.draftWindow)
          (if finalVisible ≤ 4096 then 12 else 82) * mib)
        "MTP graph allowance"
      checkedMul perBatch plan.maxConcurrency "MTP exact-b graph allowance"
    | .dflash => do
      let total ← (List.range plan.maxConcurrency).foldlM
        (fun total i => do
          let allowance ←
            dflashClassAllowance v plan (i + 1) plan.draftWindow
          checkedAdd total allowance "DFlash exact-b graph allowance") 0
      if plan.draftWindow < dflashTargetDrafts v plan then do
        let wide ←
          dflashClassAllowance v plan 1 (dflashTargetDrafts v plan)
        checkedAdd total wide "wide DFlash batch-one graph allowance"
      else return total

/-- `request_transient_capacity_bytes`. -/
def requestTransient (v : Variant) (plan : SequencePlanningInputs) :
    Except Exception Nat :=
  if plan.features.vision then
    v.outputTransientBytes (min plan.capacity 32768)
  else .ok 0

/-- `SequencePlanImpl`, with the inputs it copies. -/
structure SequencePlan where
  inputs : SequencePlanningInputs
  mainPageGroups : Nat
  kvCapacity : Nat
  persistent : PersistentLayout
  workspaceCapacity : Nat
  requestTransientCapacityBytes : Nat
  graphAllowanceBytes : Nat
  deviceReservationBytes : Nat

/-- `build_sequence_candidate`. -/
def buildSequenceCandidate (v : Variant) (inputs : SequencePlanningInputs)
    (mainPageGroups : Nat) : Except Exception SequencePlan := do
  if mainPageGroups = 0 then
    throw (.invalidArgument "Main KV physical page count must be positive")
  let kvCapacity ← checkedI32 (mainPageGroups * pagedKVPageSize)
    "resolved Paged KV capacity exceeds int32"
  let persistent ← persistentLayout v inputs mainPageGroups
  let workspace ← v.workspaceCapacity inputs
  let transient ← requestTransient v inputs
  let graph ← graphAllowance v inputs
  let planned ←
    checkedAdd persistent.bytes workspace "sequence memory plan"
  let requested ←
    checkedAdd planned transient "request transient reservation"
  let reservation ← checkedAdd requested graph "sequence graph allowance"
  return {
    inputs := inputs
    mainPageGroups := mainPageGroups
    kvCapacity := kvCapacity.toNat
    persistent := persistent
    workspaceCapacity := workspace
    requestTransientCapacityBytes := transient
    graphAllowanceBytes := graph
    deviceReservationBytes := reservation }

-- ============ the planner

/-- `SpeculativeOptions` and what else of `EngineOptions` is read. -/
structure EngineOptions where
  maxContext : Nat
  kvCapacity : KvCapacityPolicy
  maxConcurrency : Nat
  prefillChunk : Nat
  /-- `KvCacheStorage::BFloat16` -/
  kvCacheBFloat16 : Bool
  backend : SpeculativeBackend
  draftTokens : Nat
  proposalHead : ProposalHead
  enableVision : Bool
  useCudaGraph : Bool

/-- `page_count` of the engine's context: the least and the most page
groups. -/
def pageBounds (capacity maxConcurrency : Nat) :
    Except Exception (Nat × Nat) := do
  let logicalPages ← pageCount capacity
  let maximumPages := maxConcurrency * logicalPages
  if 2 ^ 32 - 1 < maximumPages then
    throw (.overflowError "maximum Main KV page count exceeds uint32")
  return (max logicalPages maxConcurrency, maximumPages)

/-- The speculative half of `validate_target_options`. -/
def validateSpeculative (v : Variant) (options : EngineOptions) :
    Except Exception Unit :=
  match options.backend with
  | .none =>
    if options.draftTokens ≠ 0 ∨ options.proposalHead ≠ .full then
      .error (.invalidArgument ("disabled speculative decoding requires "
        ++ "draft_tokens=0 and the full proposal head"))
    else .ok ()
  | .mtp =>
    if options.draftTokens = 0
        ∨ v.maximumMtpDraftTokens < options.draftTokens then
      .error (.invalidArgument "MTP draft window must be in [1,5]")
    else .ok ()
  | .dflash =>
    if v.maximumDFlashDraftTokens = 0 then
      .error (.invalidArgument "DFlash is not supported by this target")
    else if options.draftTokens = 0
        ∨ v.maximumDFlashDraftTokens < options.draftTokens then
      .error (.invalidArgument ("DFlash draft window must be in [1,"
        ++ toString v.maximumDFlashDraftTokens ++ "]"))
    else if options.enableVision then
      .error (.invalidArgument "DFlash and Vision cannot be enabled together")
    else if v.dflashSampled ∧ options.proposalHead ≠ .full then
      .error (.invalidArgument ("DFlash2 uses the registered full output "
        ++ "head; optimized proposal heads are unsupported"))
    else .ok ()

/-- `validate_target_options`, for a resolved backend. -/
def validateTargetOptions (v : Variant) (options : EngineOptions) :
    Except Exception Unit := do
  if options.maxContext = 0 ∨ v.maximumContext < options.maxContext then
    throw (.invalidArgument
      "max_context exceeds the variant native context capacity")
  if options.maxConcurrency = 0
      ∨ maximumConcurrency < options.maxConcurrency then
    throw (.invalidArgument "max_concurrency must be in [1,8]")
  let (minimumPages, maximumPages) ←
    pageBounds options.maxContext options.maxConcurrency
  match options.kvCapacity.mode with
  | .explicit =>
    if options.kvCapacity.explicitTokens < options.maxContext then
      throw (.invalidArgument "kv_capacity must be at least max_context")
    let requested ← pageCount options.kvCapacity.explicitTokens
    if requested < minimumPages ∨ maximumPages < requested then
      throw (.invalidArgument ("kv_capacity is outside the usable range "
        ++ "for max_context and max_concurrency"))
  | .automatic => pure ()
  validateSpeculative v options

/-- `inputs` of the planner. -/
def planningInputs (options : EngineOptions) : SequencePlanningInputs where
  capacity := options.maxContext
  maxConcurrency := options.maxConcurrency
  prefillChunk := min options.prefillChunk options.maxContext
  draftWindow := options.draftTokens
  speculativeBackend := options.backend
  kvDType := if options.kvCacheBFloat16 then .bf16 else .i8
  kvQuantGroup := if options.kvCacheBFloat16 then 0 else kvQuantGroup
  proposalHead := options.proposalHead
  features := ⟨options.enableVision, options.backend, options.proposalHead⟩
  useCudaGraph := options.useCudaGraph

/-- The curve of a planner; its fields are words. -/
def capacityCurve (minimumPages maximumPages reservation stride : Nat) :
    SequenceCapacityCurve where
  mainPageTokens := pagedKVPageSize
  minimumMainPageGroups := minimumPages % 2 ^ 32
  maximumMainPageGroups := maximumPages % 2 ^ 32
  minimumDeviceReservationBytes := reservation % 2 ^ 64
  bytesPerAdditionalMainPageGroup := stride % 2 ^ 64
  main_page_tokens_lt := by decide
  minimum_main_page_groups_lt := Nat.mod_lt _ (by decide)
  maximum_main_page_groups_lt := Nat.mod_lt _ (by decide)
  minimum_device_reservation_bytes_lt := Nat.mod_lt _ (by decide)
  bytes_per_additional_main_page_group_lt := Nat.mod_lt _ (by decide)

/-- `SequencePlannerImpl`. -/
structure SequencePlanner where
  inputs : SequencePlanningInputs
  curve : SequenceCapacityCurve
  minimum : SequencePlan

/-- `bytes_per_additional_main_page_group`, where there is one. -/
def adjacentStride (v : Variant) (inputs : SequencePlanningInputs)
    (minimum : SequencePlan) (minimumPages maximumPages : Nat) :
    Except Exception Nat :=
  if minimumPages < maximumPages then do
    let adjacent ← buildSequenceCandidate v inputs (minimumPages + 1)
    if adjacent.deviceReservationBytes
        ≤ minimum.deviceReservationBytes then
      throw (.logicError
        "Qwen3.6 sequence layout has a nonpositive KV capacity stride")
    return adjacent.deviceReservationBytes - minimum.deviceReservationBytes
  else return 0

/-- `make_sequence_planner_impl`. -/
def makeSequencePlanner (v : Variant) (options : EngineOptions) :
    Except Exception SequencePlanner := do
  validateTargetOptions v options
  let inputs := planningInputs options
  let (minimumPages, maximumPages) ←
    pageBounds inputs.capacity inputs.maxConcurrency
  let minimum ← buildSequenceCandidate v inputs minimumPages
  let stride ← adjacentStride v inputs minimum minimumPages maximumPages
  return {
    inputs := inputs
    curve := capacityCurve minimumPages maximumPages
      minimum.deviceReservationBytes stride
    minimum := minimum }

/-- `finalize_sequence_plan_impl`. -/
def finalizeSequencePlan (v : Variant) (planner : SequencePlanner)
    (mainPageGroups : Nat) : Except Exception SequencePlan := do
  let expected ← planner.curve.reservationBytes mainPageGroups
  let plan ←
    if mainPageGroups = planner.curve.minimumMainPageGroups then
      .ok planner.minimum
    else buildSequenceCandidate v planner.inputs mainPageGroups
  if plan.deviceReservationBytes ≠ expected then
    throw (.logicError ("Qwen3.6 physical sequence layout is not affine in "
      ++ "Main KV page capacity"))
  return plan

end Ginfer.Qwen
