/-
The runtime state of a Qwen3.6 Program (targets/qwen3_6/impl/runtime:
program.h, layouts_impl.h).

# What is modelled

`Config` is what the constructor freezes, with the bounds
`validate_target_options` and the layout planner check before a Program
can exist. `Program` is what it mutates: the paged KV pools, one
`SequenceState` and one `RequestControl` per lane, the DFlash lane
selector and the frame of the last speculative round — and, as a ghost,
what the device memory of each lane holds (Qwen/Contents.lean).

A lane's KV allocations live in the pool store under the handles
`(lane, text)` and `(lane, backend)`; `sequence.kv` is engaged exactly
when the text allocation is live.

Not here: timings, statistics, sampling configurations (device data the
host only forwards), CUDA graphs, and workspace accounting.
-/
import Ginfer.Pool.PagedKV
import Ginfer.Executor.Scheduler
import Ginfer.Qwen.Contents
import Ginfer.Qwen.ContextCopy

namespace Ginfer.Qwen

open Ginfer.Lib Ginfer.Pool Ginfer.Admission

-- ============ the configuration

/-- `SpeculativeBackend`, resolved. -/
inductive SpeculativeBackend where
  | none
  | mtp
  | dflash
  deriving DecidableEq

/-- The two page pools of a Program: the text KV cache, and the MTP or
DFlash Full cache of the speculative backend. -/
inductive PoolId where
  | text
  | backend
  deriving DecidableEq

instance : Fintype PoolId where
  elems := {.text, .backend}
  complete := by
    intro k
    cases k <;> decide

/-- `TextConfig::token_domain`. -/
def tokenDomain : Int := 248077

/-- What the constructor of a Program fixes. -/
structure Config where
  speculativeBackend : SpeculativeBackend
  capacity : Nat
  maxConcurrency : Nat
  prefillChunk : Nat
  draftWindow : Nat
  /-- `DFlashConfig::full_layers` -/
  dflashFullLayers : Nat
  /-- `DFlashConfig::sampled_dflash2` -/
  sampledDFlash2 : Bool
  /-- `DFlashConfig::local_capacity` -/
  dflashLocalCapacity : Nat
  visionEnabled : Bool
  /-- `VisionScheduleConfig::out_hidden` -/
  visionOutHidden : Nat
  /-- `VisionContext::workspace_bytes` against the workspace capacity -/
  visionWorkspaceFits : VisionItemControl → Bool
  mainPageGroups : Nat
  capacity_pos : 0 < capacity
  capacity_le : capacity ≤ 262144
  max_concurrency_pos : 0 < maxConcurrency
  max_concurrency_le : maxConcurrency ≤ maximumConcurrency
  prefill_chunk_pos : 0 < prefillChunk
  draft_window_mtp : speculativeBackend = .mtp → 1 ≤ draftWindow ∧ draftWindow ≤ 5
  draft_window_dflash : speculativeBackend = .dflash →
    1 ≤ draftWindow ∧ draftWindow ≤ 15
  dflash_excludes_vision : speculativeBackend = .dflash → visionEnabled = false
  dflash_local_capacity_pos : 0 < dflashLocalCapacity
  vision_out_hidden_pos : 0 < visionOutHidden
  main_page_groups_covers : pagesForTokens capacity ≤ mainPageGroups
  main_page_groups_lanes : maxConcurrency ≤ mainPageGroups
  main_page_groups_fits : mainPageGroups * pagedKVPageSize < 2 ^ 31

namespace Config

variable (c : Config)

/-- `dflash_target_window`. -/
def dflashTargetWindow : Nat :=
  if c.speculativeBackend = .dflash then
    if c.sampledDFlash2 then 15 else c.draftWindow
  else 0

/-- `backend_kv_cache() != nullptr`. -/
def hasBackendKV : Bool :=
  match c.speculativeBackend with
  | .none => false
  | .mtp => true
  | .dflash => decide (0 < c.dflashFullLayers)

/-- The physical pages of a pool: the MTP cache has room for the drafts
of every lane past the main cache. -/
def pageGroups : PoolId → Nat
  | .text => c.mainPageGroups
  | .backend =>
    if c.speculativeBackend = .mtp then
      c.mainPageGroups + c.maxConcurrency
        * ((c.draftWindow - 1 + pagedKVPageSize - 1) / pagedKVPageSize)
    else c.mainPageGroups

theorem pageGroups_bounds (k : PoolId) :
    c.mainPageGroups ≤ c.pageGroups k ∧ c.pageGroups k < 2 ^ 31 := by
  have hmain := c.main_page_groups_fits
  have hlanes := c.max_concurrency_le
  simp only [pagedKVPageSize, maximumConcurrency] at hmain hlanes
  cases k with
  | text =>
    show c.mainPageGroups ≤ c.mainPageGroups ∧ c.mainPageGroups < 2 ^ 31
    omega
  | backend =>
    show c.mainPageGroups ≤ (if c.speculativeBackend = .mtp then _ else _)
      ∧ (if c.speculativeBackend = .mtp then _ else _) < 2 ^ 31
    split
    · next hmtp =>
      have hwindow := (c.draft_window_mtp hmtp).2
      have hextra : (c.draftWindow - 1 + pagedKVPageSize - 1)
          / pagedKVPageSize ≤ 1 := by
        simp only [pagedKVPageSize]
        omega
      have hmul := Nat.mul_le_mul hlanes hextra
      omega
    · omega

/-- The plan of pool `k`: one block-table row per lane, and as many
logical pages as the capacity needs. -/
def poolSpec (k : PoolId) : PagedKVPoolSpec where
  pageGroupCount := c.pageGroups k
  logicalPageCapacity := pagesForTokens c.capacity
  tableRows := c.maxConcurrency
  page_group_count_pos := by
    have h := (c.pageGroups_bounds k).1
    have hl := c.main_page_groups_lanes
    have hp := c.max_concurrency_pos
    omega
  page_group_count_fits := (c.pageGroups_bounds k).2
  logical_page_capacity_pos := by
    have h := c.capacity_pos
    unfold pagesForTokens pagedKVPageSize
    split
    · omega
    · omega
  logical_page_capacity_fits := by
    have h := c.main_page_groups_covers
    have hb := c.pageGroups_bounds .text
    omega
  table_rows_pos := c.max_concurrency_pos
  table_rows_fits := by
    have h := c.max_concurrency_le
    simp only [maximumConcurrency] at h
    omega

end Config

-- ============ the plans

/-- `PrefixReusePath`. -/
inductive ReusePath where
  | fullReset
  | appendAtFrontier
  | restoreTurnCheckpoint
  | restoreResponseCheckpoint
  deriving DecidableEq

/-- `is_rewrite_checkpoint_restore`. -/
def ReusePath.isRewriteCheckpointRestore : ReusePath → Bool
  | .restoreTurnCheckpoint => true
  | .restoreResponseCheckpoint => true
  | _ => false

/-- `restore_path`. -/
def restorePath : RewriteCheckpointKind → ReusePath
  | .turnClosure => .restoreTurnCheckpoint
  | .responseReplay => .restoreResponseCheckpoint

/-- `RewriteCheckpointAction`. -/
inductive RewriteCheckpointAction where
  | drop
  | keepExisting
  | reclassifyExisting
  | captureNew
  | deferCapture

/-- `MtpBridgeMode`. -/
inductive MtpBridgeMode where
  | none
  | beforeSuffix
  | afterExactHit
  deriving DecidableEq

/-- `VisionUseSpan`. -/
structure VisionUseSpan where
  begin : Nat
  stop : Nat
  itemIndex : Nat

/-- `VisionPrefillPlan`. -/
structure VisionPrefillPlan where
  control : List VisionItemControl
  uses : List VisionUseSpan

/-- `RequestBasePlanImpl`. -/
structure RequestBasePlan where
  summary : RequestPlanSummary
  textKVPageEntitlement : Nat
  backendKVPageEntitlement : Nat
  visionControl : Option (List VisionItemControl)
  visionTransientBytes : Nat
  rewriteCheckpoint : Option RewriteCheckpointSpec
  allowPrefixReuse : Bool

/-- `RequestPlanImpl`. -/
structure RequestPlan where
  summary : RequestPlanSummary
  reuse : ReusePath
  reuseBase : Nat
  mtpBridge : MtpBridgeMode
  prepareMtp : Bool
  vision : Option VisionPrefillPlan
  rewriteCheckpointAction : RewriteCheckpointAction
  rewriteCheckpointCapture : Option RewriteCheckpointSpec
  textKVPageEntitlement : Nat
  backendKVPageEntitlement : Nat

-- ============ the lane state

/-- `PendingKind`. -/
inductive PendingKind where
  | none
  | begin
  | ordinary
  | speculative
  deriving DecidableEq

/-- `PendingCandidate`. -/
structure PendingCandidate where
  kind : PendingKind
  baseE : Nat
  baseS : Nat
  promptTokens : Nat
  produced : Nat
  rowStride : Nat
  targetWindow : Nat
  contextCopyExtent : Nat
  acceptedDrafts : Nat

/-- The default `PendingCandidate`. -/
def PendingCandidate.empty : PendingCandidate :=
  ⟨.none, 0, 0, 0, 0, 0, 0, 0, 0⟩

/-- `Lifecycle`. -/
inductive Lifecycle where
  | empty
  | prefilling
  | active
  | pending
  | complete
  deriving DecidableEq

/-- Whether a request occupies the lane. -/
def Lifecycle.busy : Lifecycle → Bool
  | .prefilling => true
  | .active => true
  | .pending => true
  | _ => false

/-- `RewriteCheckpoint`. -/
structure RewriteCheckpoint where
  valid : Bool
  kind : RewriteCheckpointKind
  frontier : Nat

/-- The default `RewriteCheckpoint`. -/
def RewriteCheckpoint.empty : RewriteCheckpoint := ⟨false, .turnClosure, 0⟩

/-- `SequenceState`, less its KV bundle. -/
structure SequenceState where
  executionFrontier : Nat
  ledgerFrontier : Nat
  ledger : List Int
  contextCopy : ContextCopyIndex
  contextCopyConfirmations : Nat
  prefixIdentity : ResidentPrefixIdentity
  ropeDelta : Int
  textKVValid : Nat
  mtpKVValid : Nat
  dflashContextFrontier : Nat
  mtpDrafts : Nat → Int
  mtpDraftCount : Nat
  tailHiddenValid : Bool
  retained : Bool
  rewriteCheckpoint : RewriteCheckpoint

/-- A lane as the constructor leaves it. -/
def SequenceState.empty : SequenceState where
  executionFrontier := 0
  ledgerFrontier := 0
  ledger := []
  contextCopy := .empty
  contextCopyConfirmations := 0
  prefixIdentity := .empty
  ropeDelta := 0
  textKVValid := 0
  mtpKVValid := 0
  dflashContextFrontier := 0
  mtpDrafts := fun _ => 0
  mtpDraftCount := 0
  tailHiddenValid := false
  retained := false
  rewriteCheckpoint := .empty

/-- `VisionPrefillSession`: what it keeps between chunks. -/
structure VisionPrefillSession where
  activeItem : Option Nat
  encodedPayloadsPendingRelease : List Nat

/-- `RequestControl::Prefill`. -/
structure Prefill where
  prompt : PreparedPromptData
  visionPlan : Option VisionPrefillPlan
  vision : Option VisionPrefillSession
  transient : TransientRegion
  rewriteCheckpointCapture : Option RewriteCheckpointSpec
  base : Nat
  cursor : Nat
  promptTokens : Nat
  initialMtpExtent : Nat
  prepareMtp : Bool
  reuse : ReusePath
  mtpBridge : MtpBridgeMode

/-- `RequestControl`. -/
structure RequestControl where
  lifecycle : Lifecycle
  pending : PendingCandidate
  prefill : Option Prefill

/-- A free lane's request control. -/
def RequestControl.empty : RequestControl where
  lifecycle := .empty
  pending := .empty
  prefill := none

/-- One row of the frame of a speculative round: the lane it ran for, the
egress the host reads back, and the target columns with the history they
continued. -/
structure RoundRow where
  lane : Lane
  licensedTokens : Nat → Int
  nextExtent : Int
  nextDrafts : Nat → Int
  source : Option History
  columns : History

/-- The zero a cleared frame holds for a lane. -/
def firstLane : Lane := ⟨0, by decide⟩

/-- The state of a Program. -/
structure Program where
  kv : PagedKV PoolId (Lane × PoolId)
  sequences : Lane → SequenceState
  requests : Lane → RequestControl
  contents : Lane → LaneContents
  round : Nat → RoundRow
  /-- `dflash_host_ingress->lanes[0]` -/
  ingressLane : Lane
  /-- `io.dflash_decode->lanes[0]` -/
  frameLane : Lane

namespace Program

/-- The Program its constructor leaves. -/
def init (c : Config) (tables : PoolId → Nat → Nat → Nat) : Program where
  kv := .init c.poolSpec tables
  sequences := fun _ => .empty
  requests := fun _ => .empty
  contents := fun _ => .unknown
  round := fun _ => ⟨firstLane, fun _ => 0, 0, fun _ => 0, none, []⟩
  ingressLane := firstLane
  frameLane := firstLane

variable (s : Program) (lane : Lane)

/-- `sequence.kv->text`, when `sequence.kv` is engaged. -/
def textKV : Option (PagedKVAllocation PoolId) :=
  s.kv.allocations (lane, .text)

/-- `sequence.kv->backend`. -/
def backendKV : Option (PagedKVAllocation PoolId) :=
  s.kv.allocations (lane, .backend)

/-- Replace a lane's sequence. -/
def setSequence (q : SequenceState) : Program :=
  { s with sequences := Function.update s.sequences lane q }

/-- Replace a lane's request control. -/
def setRequest (r : RequestControl) : Program :=
  { s with requests := Function.update s.requests lane r }

/-- Replace what a lane's device memory holds. -/
def setContents (d : LaneContents) : Program :=
  { s with contents := Function.update s.contents lane d }

end Program

end Ginfer.Qwen
