/-
Request planning and admission checks (targets/qwen3_6/impl/runtime:
request_plan_impl.h, and `can_admit_lane` of program_impl.h).

# What is modelled

`planRequestBase` validates a prepared prompt against the configuration
and computes what it will need whatever lane it gets: output budget, page
entitlements, Vision control, projected work. `planRequestForLane` looks
at one free lane and decides how much of what the lane retains can be
reused, which rewrite checkpoint the request leaves behind, and what MTP
and Vision have to do. Both only read the Program.

The two `noexcept` admission checks compare a plan with the page pools.

A floating-point sampling parameter is `none` when it is not finite.
-/
import Ginfer.Qwen.State

namespace Ginfer.Qwen

open Ginfer.Lib Ginfer.Pool Ginfer.Admission

-- ============ the base plan

/-- The parameters `validate_sampling` checks. -/
structure ResolvedSamplingParameters where
  temperature : Option Rat
  topP : Option Rat
  minP : Option Rat
  presencePenalty : Option Rat
  frequencyPenalty : Option Rat

/-- `ResolvedExecutionOptions`. -/
structure ResolvedExecutionOptions where
  requestedOutputTokens : Nat
  allowPrefixReuse : Bool
  sampling : ResolvedSamplingParameters

/-- `validate_sampling`. -/
def validateSampling (p : ResolvedSamplingParameters) : Except Exception Unit :=
  if p.temperature.isNone || p.topP.isNone || p.minP.isNone
      || p.presencePenalty.isNone || p.frequencyPenalty.isNone then
    .error (.invalidArgument "sampling parameters must be finite")
  else if p.topP.any fun x => decide (x < 0 ∨ 1 < x) then
    .error (.invalidArgument "top_p must be in [0,1]")
  else if p.minP.any fun x => decide (x < 0 ∨ 1 < x) then
    .error (.invalidArgument "min_p must be in [0,1]")
  else .ok ()

/-- `pages_for_tokens` of the planner; it is never called with zero. -/
def requestPages (tokens : Nat) : Nat :=
  1 + (tokens - 1) / pagedKVPageSize

/-- `projected_service_work`. -/
def projectedServiceWork (promptTokens effectiveOutputTokens reuseBase
    prefillChunk prefillSplits : Nat) : Nat :=
  (if promptTokens - reuseBase = 0 then 1
   else 1 + (promptTokens - reuseBase - 1) / prefillChunk + prefillSplits)
    + (effectiveOutputTokens - 1)

/-- `VisionContext::output_transient_bytes`: one BF16 column of the
encoder's output per merged patch, rounded up to the alignment. -/
def outputTransientBytes (c : Config) (mergedTokens : Nat) :
    Except Exception Nat :=
  if mergedTokens = 0 ∨ 2 ^ 31 ≤ mergedTokens then
    .error (.invalidArgument
      "Vision output transient extent must fit positive int32")
  else .ok ((c.visionOutHidden * mergedTokens * 2 + 255) / 256 * 256)

/-- The checks of `plan_request_base` before it plans anything. -/
def checkPrompt (c : Config) (p : PreparedPromptData)
    (options : ResolvedExecutionOptions) : Except Exception Unit := do
  if p.tokenIds.isEmpty then
    throw (.invalidArgument "prompt must contain tokens")
  if c.capacity < p.tokenIds.length then
    throw (.invalidArgument "prompt exceeds configured context capacity")
  if p.tokenIds.any fun id => decide (id < 0 ∨ tokenDomain ≤ id) then
    throw (.invalidArgument
      "prompt contains token outside the 248077-token domain")
  if p.tokenTypes.length ≠ p.tokenIds.length
      ∨ p.positions.length ≠ 3 * p.tokenIds.length then
    throw (.invalidArgument "prepared prompt token metadata has an invalid shape")
  if p.hasMedia ≠ !p.mediaPayloads.isEmpty
      ∨ p.mediaPayloads.length ≠ p.visionItems.length then
    throw (.invalidArgument "prepared prompt media payload is incomplete")
  if (p.mediaPayloads.zip p.visionItems).any fun pair =>
      pair.1 != some (pair.2.patchCount * preparedVisionPatchFeatures) then
    throw (.invalidArgument
      "prepared prompt media item payload has an invalid shape")
  if p.hasMedia ∧ c.visionEnabled = false then
    throw (.invalidArgument "Vision is disabled for this Engine")
  validateSampling options.sampling

/-- The first text column that consumes an item: MTP also embeds it one
column earlier. -/
def consumerBegin (shifted : Bool) (first : Nat) : Nat :=
  if shifted ∧ first ≠ 0 then first - 1 else first

/-- The control loop of `plan_request_base`; the result is the largest
merged count. -/
def checkControls (c : Config) (promptTokens : Nat) :
    List VisionItemControl → (previousEnd maxMerged : Nat) → Except Exception Nat
  | [], _, maxMerged => .ok maxMerged
  | item :: rest, previousEnd, maxMerged =>
    match item.scatterIndices.head?, item.scatterIndices.getLast? with
    | some first, some last =>
      if consumerBegin (c.speculativeBackend = .mtp) first
          < previousEnd then
        .error (.invalidArgument "vision item consumer spans overlap")
      else if promptTokens < last + 1 then
        .error (.invalidArgument "vision item consumer span exceeds prompt")
      else if !c.visionWorkspaceFits item then
        .error (.invalidArgument
          "vision item exceeds the Program workspace envelope")
      else
        checkControls c promptTokens rest (last + 1)
          (max maxMerged item.mergedCount)
    | _, _ =>
      .error (.invalidArgument "vision item has no Text consumer columns")

/-- The Vision block of `plan_request_base`. -/
def planVision (c : Config) (p : PreparedPromptData) :
    Except Exception (Option (List VisionItemControl) × Nat) :=
  if p.hasMedia then do
    let control ← buildVisionControl p
    let maxMerged ← checkControls c p.tokenIds.length control 0 0
    let bytes ← outputTransientBytes c maxMerged
    return (some control, bytes)
  else .ok (none, 0)

/-- `effective_output_tokens`. -/
def effectiveOutput (c : Config) (promptTokens requested : Nat) : Nat :=
  min requested (c.capacity - promptTokens + 1)

/-- `reserved_context_tokens`. -/
def reservedContextTokens (promptTokens effectiveOutputTokens : Nat) : Nat :=
  promptTokens + (effectiveOutputTokens - 1)

/-- `backend_kv_page_entitlement`. -/
def backendEntitlement (c : Config) (reserved : Nat) : Nat :=
  match c.speculativeBackend with
  | .none => 0
  | .mtp => requestPages (min c.capacity (reserved + c.draftWindow - 1))
  | .dflash => if 0 < c.dflashFullLayers then requestPages reserved else 0

/-- The checkpoint check of `plan_request_base`. -/
def checkRewriteCheckpoint (p : PreparedPromptData) : Except Exception Unit :=
  if p.rewriteCheckpoint.any fun candidate =>
      candidate.frontier == 0
        || decide (p.tokenIds.length < candidate.frontier) then
    .error (.invalidArgument
      "rewrite checkpoint frontier must lie at or inside the prompt frontier")
  else .ok ()

/-- One prefill step is added for a checkpoint inside the prompt. -/
def checkpointSplits (capture : Option RewriteCheckpointSpec)
    (promptTokens : Nat) : Nat :=
  if capture.any fun spec => decide (spec.frontier < promptTokens)
  then 1 else 0

/-- `plan_request_base`. -/
def planRequestBase (c : Config) (p : PreparedPromptData)
    (options : ResolvedExecutionOptions) :
    Except Exception RequestBasePlan := do
  checkPrompt c p options
  let promptTokens := p.tokenIds.length
  let effective :=
    effectiveOutput c promptTokens options.requestedOutputTokens
  let reserved := reservedContextTokens promptTokens effective
  let (control, transientBytes) ← planVision c p
  checkRewriteCheckpoint p
  let splits := (control.map List.length).getD 0
    + checkpointSplits p.rewriteCheckpoint promptTokens
  return {
    summary :=
      { promptTokens := promptTokens
        reusablePromptTokens := 0
        effectiveOutputTokens := effective
        transientBytes := 0
        transientAlignment := 1
        admission := ⟨1, requestPages reserved, backendEntitlement c reserved⟩
        serviceWorkQuanta := projectedServiceWork promptTokens effective 0
          c.prefillChunk splits }
    textKVPageEntitlement := requestPages reserved
    backendKVPageEntitlement := backendEntitlement c reserved
    visionControl := control
    visionTransientBytes := transientBytes
    rewriteCheckpoint := p.rewriteCheckpoint
    allowPrefixReuse := options.allowPrefixReuse }

-- ============ the lane plan

/-- The reuse the resident prefix of a lane offers: appending at the
execution frontier, else restoring the rewrite checkpoint. -/
def residentReuse (c : Config) (q : SequenceState) (p : PreparedPromptData)
    (allowPrefixReuse : Bool) : ReusePath × Nat :=
  if allowPrefixReuse && p.reusable && q.retained then
    if q.executionFrontier ≠ 0
        ∧ (c.speculativeBackend ≠ .dflash
          ∨ q.dflashContextFrontier = q.executionFrontier)
        ∧ prefixMatches p q.ledger q.prefixIdentity q.executionFrontier then
      (.appendAtFrontier, q.executionFrontier)
    else if q.rewriteCheckpoint.valid ∧ q.rewriteCheckpoint.frontier ≠ 0
        ∧ q.rewriteCheckpoint.frontier ≤ p.tokenIds.length
        ∧ prefixMatches p q.ledger q.prefixIdentity
          q.rewriteCheckpoint.frontier then
      (restorePath q.rewriteCheckpoint.kind, q.rewriteCheckpoint.frontier)
    else (.fullReset, 0)
  else (.fullReset, 0)

/-- Whether the speculative backend can continue from the chosen reuse. -/
def backendReady (c : Config) (q : SequenceState) (hasKV : Bool)
    (reuse : ReusePath × Nat) : Bool :=
  match c.speculativeBackend with
  | .none => true
  | .mtp =>
    reuse.1 == .fullReset
      || (reuse.1 == .appendAtFrontier && q.tailHiddenValid
        && (reuse.2 == 0 || decide (reuse.2 - 1 ≤ q.mtpKVValid)))
      || (reuse.1.isRewriteCheckpointRestore && reuse.2 != 0
        && decide (reuse.2 - 1 ≤ q.mtpKVValid))
  | .dflash =>
    !reuse.1.isRewriteCheckpointRestore
      || (hasKV && decide (reuse.2 ≤ q.dflashContextFrontier))

/-- The reuse of `plan_request_for_lane`: full reset when the backend
cannot follow. -/
def selectReuse (c : Config) (q : SequenceState) (hasKV : Bool)
    (p : PreparedPromptData) (allowPrefixReuse : Bool) : ReusePath × Nat :=
  let reuse := residentReuse c q p allowPrefixReuse
  if backendReady c q hasKV reuse then reuse else (.fullReset, 0)

/-- `rewrite_checkpoint_action` and `rewrite_checkpoint_capture`. -/
def selectCheckpointAction (q : SequenceState) (p : PreparedPromptData)
    (desired : Option RewriteCheckpointSpec) (reuse : ReusePath × Nat) :
    RewriteCheckpointAction × Option RewriteCheckpointSpec :=
  match desired with
  | none => (.drop, none)
  | some spec =>
    if reuse.1 ≠ .fullReset ∧ q.rewriteCheckpoint.valid
        ∧ q.rewriteCheckpoint.frontier = spec.frontier
        ∧ prefixMatches p q.ledger q.prefixIdentity spec.frontier then
      if q.rewriteCheckpoint.kind = spec.kind then (.keepExisting, none)
      else (.reclassifyExisting, none)
    else if reuse.2 < spec.frontier then (.captureNew, some spec)
    -- The continuation is already past the boundary: it stays a hit, and
    -- the checkpoint the lane holds is left for a later request.
    else (.deferCapture, none)

/-- `mtp_bridge`. -/
def selectMtpBridge (c : Config) (reuse : ReusePath × Nat)
    (promptTokens : Nat) : MtpBridgeMode :=
  if c.speculativeBackend ≠ .mtp ∨ reuse.1 = .fullReset then .none
  else if reuse.2 < promptTokens then .beforeSuffix
  else .afterExactHit

/-- The use spans of the items that still have consumers after the reuse
base; `index` is the first item's. -/
def visionUses (prepareMtp : Bool) (reuseBase : Nat) :
    (index : Nat) → List VisionItemControl → List VisionUseSpan
  | _, [] => []
  | index, item :: rest =>
    let first := item.scatterIndices.head?.getD 0
    let last := item.scatterIndices.getLast?.getD 0
    if last + 1 ≤ reuseBase then
      visionUses prepareMtp reuseBase (index + 1) rest
    else
      ⟨consumerBegin prepareMtp first, last + 1, index⟩
        :: visionUses prepareMtp reuseBase (index + 1) rest

/-- The Vision part of a lane plan. -/
def planVisionUses (base : RequestBasePlan) (prepareMtp : Bool)
    (reuseBase : Nat) : Option VisionPrefillPlan :=
  base.visionControl.bind fun control =>
    match visionUses prepareMtp reuseBase 0 control with
    | [] => none
    | uses => some ⟨control, uses⟩

/-- `plan_request_for_lane`. -/
def Program.planRequestForLane (c : Config) (s : Program) (lane : Lane)
    (p : PreparedPromptData) (base : RequestBasePlan) :
    Except Exception RequestPlan :=
  if c.maxConcurrency ≤ lane.val then
    .error (.outOfRange "request lane is out of range")
  else if (s.requests lane).lifecycle.busy then
    .error (.logicError
      "cannot plan a request while Program is active or pending")
  else
    let q := s.sequences lane
    let reuse :=
      selectReuse c q (s.textKV lane).isSome p base.allowPrefixReuse
    let checkpoint := selectCheckpointAction q p base.rewriteCheckpoint reuse
    let prepareMtp := decide (c.speculativeBackend = .mtp)
    let vision := planVisionUses base prepareMtp reuse.2
    let splits := (vision.map fun v => v.uses.length).getD 0
      + checkpointSplits checkpoint.2 base.summary.promptTokens
    .ok {
      summary := { base.summary with
        reusablePromptTokens := reuse.2
        transientBytes :=
          if vision.isSome then base.visionTransientBytes
          else base.summary.transientBytes
        transientAlignment :=
          if vision.isSome then 256 else base.summary.transientAlignment
        serviceWorkQuanta := projectedServiceWork base.summary.promptTokens
          base.summary.effectiveOutputTokens reuse.2 c.prefillChunk splits }
      reuse := reuse.1
      reuseBase := reuse.2
      mtpBridge := selectMtpBridge c reuse base.summary.promptTokens
      prepareMtp := prepareMtp
      vision := vision
      rewriteCheckpointAction := checkpoint.1
      rewriteCheckpointCapture := checkpoint.2
      textKVPageEntitlement := base.textKVPageEntitlement
      backendKVPageEntitlement := base.backendKVPageEntitlement }

-- ============ admission

/-- The lanes of the Program's loops, in order. -/
def Config.lanes (c : Config) : List Lane :=
  (List.finRange maximumConcurrency).filter fun lane =>
    decide (lane.val < c.maxConcurrency)

/-- The entitlement a plan asks of a pool. -/
def RequestPlan.entitlement (plan : RequestPlan) : PoolId → Nat
  | .text => plan.textKVPageEntitlement
  | .backend => plan.backendKVPageEntitlement

/-- The `can_replace` of `can_admit_lane_after_retained_eviction`. -/
def canReplaceAfter (p : PagedKVPool) (oldPages reclaimablePages newPages : Nat) :
    Bool :=
  if p.entitledPages < oldPages
      ∨ u32Sub p.entitledPages oldPages < reclaimablePages
      ∨ p.spec.logicalPageCapacity < newPages then false
  else
    decide (newPages ≤ u32Sub p.spec.pageGroupCount
      (u32Sub (u32Sub p.entitledPages oldPages) reclaimablePages))

namespace Program

/-- The entitlement a lane holds in a pool. -/
def entitlement (s : Program) (lane : Lane) (k : PoolId) : Nat :=
  ((s.kv.allocations (lane, k)).map PagedKVAllocation.pageEntitlement).getD 0

/-- The pages the other retained lanes would give back. -/
def reclaimable (c : Config) (s : Program) (lane : Lane) (k : PoolId) :
    Nat :=
  c.lanes.foldl (fun pages other =>
    if other = lane ∨ (s.sequences other).retained = false
        ∨ (s.textKV other).isNone then pages
    else u32Add pages (s.entitlement other k)) 0

/-- Both pools pass a test, or the text pool does and no backend pages are
asked for when there is no backend cache. -/
def poolsAdmit (c : Config) (plan : RequestPlan) (test : PoolId → Bool) : Bool :=
  test .text
    && if c.hasBackendKV then test .backend
       else plan.backendKVPageEntitlement == 0

/-- `can_admit_lane`. -/
def canAdmitLane (c : Config) (s : Program) (lane : Lane)
    (plan : RequestPlan) : Bool :=
  if c.maxConcurrency ≤ lane.val then false
  else if (s.requests lane).lifecycle.busy then false
  else
    poolsAdmit c plan fun k =>
      (s.kv.pools k).canReplaceEntitlement (s.entitlement lane k)
        (plan.entitlement k)

/-- `can_admit_lane_after_retained_eviction`. -/
def canAdmitLaneAfterRetainedEviction (c : Config) (s : Program)
    (lane : Lane) (plan : RequestPlan) : Bool :=
  if c.maxConcurrency ≤ lane.val then false
  else if (s.requests lane).lifecycle.busy then false
  else
    poolsAdmit c plan fun k =>
      canReplaceAfter (s.kv.pools k) (s.entitlement lane k)
        (s.reclaimable c lane k) (plan.entitlement k)

/-- `has_retained_lane`. -/
def hasRetainedLane (c : Config) (s : Program) (lane : Lane) : Bool :=
  decide (lane.val < c.maxConcurrency) && (s.sequences lane).retained

end Program

end Ginfer.Qwen
