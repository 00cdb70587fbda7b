/-
Starting a request on a lane (`start_prefill_lane` of
targets/qwen3_6/impl/runtime/program_impl.h).

The plan was made earlier, against the same lane: `startChecks` verifies
that it still describes the prompt and what the lane retains. Past the
checks the lane belongs to the new request, and everything runs in a
`try` block that clears it on a throw: the chosen reuse is applied
(`applyReuse`), the bundle is bound and grown to the prompt
(`bindAndGrow`), the sequence is given the new ledger (`stagePrompt`), and
the first prefill unit runs.
-/
import Ginfer.Qwen.Prefill

namespace Ginfer.Qwen

open Ginfer.Lib Ginfer.Pool Ginfer.Admission

namespace Program

-- ============ the checks

/-- The checks on the plan's checkpoint action. -/
def checkpointChecks (q : SequenceState) (p : PreparedPromptData)
    (plan : RequestPlan) : Except Exception Unit :=
  match plan.rewriteCheckpointAction with
  | .keepExisting =>
    if p.rewriteCheckpoint.all fun spec =>
        !(q.rewriteCheckpoint.valid && q.rewriteCheckpoint.kind == spec.kind
          && q.rewriteCheckpoint.frontier == spec.frontier
          && plan.reuse != .fullReset
          && prefixMatches p q.ledger q.prefixIdentity
            q.rewriteCheckpoint.frontier) then
      .error (.logicError "planned rewrite checkpoint retention is unavailable")
    else .ok ()
  | .reclassifyExisting =>
    if p.rewriteCheckpoint.all fun spec =>
        !(q.rewriteCheckpoint.valid && q.rewriteCheckpoint.kind != spec.kind
          && q.rewriteCheckpoint.frontier == spec.frontier
          && plan.reuse != .fullReset
          && prefixMatches p q.ledger q.prefixIdentity
            q.rewriteCheckpoint.frontier) then
      .error (.logicError
        "planned rewrite checkpoint reclassification is unavailable")
    else .ok ()
  | .captureNew =>
    if p.rewriteCheckpoint.all fun spec =>
        !(plan.rewriteCheckpointCapture == some spec
          && decide (plan.reuseBase < spec.frontier)
          && decide (spec.frontier ≤ p.tokenIds.length)) then
      .error (.logicError "planned rewrite checkpoint capture is invalid")
    else .ok ()
  | .drop =>
    if p.rewriteCheckpoint.isSome then
      .error (.logicError
        "planned rewrite checkpoint drop does not describe the prompt")
    else .ok ()
  | .deferCapture =>
    if p.rewriteCheckpoint.all fun spec =>
        !(plan.reuse != .fullReset
          && decide (spec.frontier ≤ plan.reuseBase)) then
      .error (.logicError "planned rewrite checkpoint deferral is invalid")
    else .ok ()

/-- The checks of `start_prefill_lane` before the lane changes hands. -/
def startChecks (c : Config) (s : Program) (lane : Lane)
    (p : PreparedPromptData) (plan : RequestPlan)
    (transient : TransientRegion) : Except Exception Unit := do
  let q := s.sequences lane
  if c.maxConcurrency ≤ lane.val then
    throw (.outOfRange "request lane is out of range")
  if (s.requests lane).lifecycle.busy then
    throw (.logicError "staged prefill requires a free request lane")
  if p.tokenIds.length ≠ plan.summary.promptTokens
      ∨ (plan.vision.isSome ∧ p.hasMedia = false) then
    throw (.invalidArgument "request plan does not describe the prepared prompt")
  if p.rewriteCheckpoint.any fun spec => spec.frontier == 0
      || decide (p.tokenIds.length < spec.frontier) then
    throw (.invalidArgument "prepared prompt has an invalid rewrite checkpoint")
  if ((p.tokenTypes.drop plan.reuseBase).any fun type => type != 0)
      ≠ plan.vision.isSome then
    throw (.invalidArgument
      "request plan does not describe the prompt suffix modality")
  if plan.summary.transientBytes ≠ 0 ∧ (transient.size = 0
      ∨ transient.size < plan.summary.transientBytes
      ∨ transient.alignment < plan.summary.transientAlignment) then
    throw (.invalidArgument "request transient region does not satisfy the plan")
  if plan.reuse ≠ .fullReset ∧ (q.retained = false
      ∨ prefixMatches p q.ledger q.prefixIdentity plan.reuseBase = false)
  then
    throw (.logicError "planned resident prefix is no longer reusable")
  if plan.reuse.isRewriteCheckpointRestore
      ∧ (q.rewriteCheckpoint.valid = false
        ∨ q.rewriteCheckpoint.frontier ≠ plan.reuseBase
        ∨ plan.reuse ≠ restorePath q.rewriteCheckpoint.kind) then
    throw (.logicError "planned rewrite checkpoint is unavailable")
  checkpointChecks q p plan

-- ============ the reuse

/-- The full-reset branch. -/
def applyFullReset (c : Config) (s : Program) (lane : Lane)
    (plan : RequestPlan) (fate : Fate) : Outcome Program :=
  ((s.resetKV lane).orderedReset lane fate).andThen fun s =>
    (s.setSequence lane { s.sequences lane with
      ledger := []
      textKVValid := 0
      mtpKVValid := 0 }).reserveSequenceKV c lane
        plan.textKVPageEntitlement plan.backendKVPageEntitlement fate

/-- The trim and the resize both reuses end with. -/
def trimAndResize (c : Config) (s : Program) (lane : Lane)
    (plan : RequestPlan) (fate : Fate) : Outcome Program :=
  (s.trimSequenceKV c lane plan.reuseBase
    (backendKVValid c (s.sequences lane))).andThen fun s =>
      s.resizeSequenceKVEntitlement lane plan.textKVPageEntitlement
        plan.backendKVPageEntitlement fate

/-- The append branch. -/
def applyAppend (c : Config) (s : Program) (lane : Lane)
    (plan : RequestPlan) (fate : Fate) : Outcome Program :=
  let base := plan.reuseBase
  let q := s.sequences lane
  if (s.textKV lane).isNone then
    .throw (.logicError "resident prefix has no KV allocation bundle") s
  else if q.textKVValid < base then
    .throw (.logicError "resident Text KV is shorter than the append frontier") s
  else if c.speculativeBackend = .mtp
      ∧ (plan.prepareMtp = false ∨ q.mtpKVValid < base - 1) then
    .throw (.logicError "resident MTP KV is shorter than the bridge frontier") s
  else if c.speculativeBackend = .dflash
      ∧ q.dflashContextFrontier ≠ base then
    .throw (.logicError "resident DFlash context is not at the append frontier") s
  else
    (trimAndResize c (s.setSequence lane { q with
      mtpKVValid :=
        if c.speculativeBackend = .mtp then base - 1 else q.mtpKVValid })
      lane plan fate).andThen fun s =>
        .ok (s.setSequence lane { s.sequences lane with
          textKVValid := base
          ledger := (s.sequences lane).ledger.take base })

/-- The device copies of the restore branch: the checkpoint's state slot
becomes the current one, and its hidden column the tail of an exact
hit. -/
def restoreSlots (s : Program) (lane : Lane) (exactHit : Bool) : Program :=
  let d := s.contents lane
  let q := s.sequences lane
  (s.setContents lane { d with
      state := d.checkpointState
      tailHidden := if exactHit then d.checkpointHidden else d.tailHidden }
    ).setSequence lane { q with
      tailHiddenValid := exactHit || q.tailHiddenValid }

/-- The checkpoint-restore branch. -/
def applyRestore (c : Config) (s : Program) (lane : Lane)
    (plan : RequestPlan) (fate : Fate) : Outcome Program :=
  let base := plan.reuseBase
  let q := s.sequences lane
  if (s.textKV lane).isNone ∨ q.textKVValid < base then
    .throw (.logicError
      "resident rewrite checkpoint has no complete KV allocation") s
  else if c.speculativeBackend = .mtp
      ∧ (plan.prepareMtp = false ∨ q.mtpKVValid < base - 1) then
    .throw (.logicError
      "rewrite-checkpoint MTP KV is shorter than the bridge frontier") s
  else if c.speculativeBackend = .dflash
      ∧ (s.dflashStorageReady c lane = false
        ∨ q.dflashContextFrontier < base) then
    .throw (.logicError "planned DFlash rewrite checkpoint is unavailable") s
  else
    let d := s.contents lane
    let s := (s.setSequence lane { q with
        textKVValid := base
        mtpKVValid :=
          if c.speculativeBackend = .mtp then base - 1 else q.mtpKVValid
        dflashContextFrontier :=
          if c.speculativeBackend = .dflash then base
          else q.dflashContextFrontier }
      ).setContents lane { d with
        localContext :=
          if c.speculativeBackend = .dflash then d.checkpointContext
          else d.localContext }
    (trimAndResize c s lane plan fate).andThen fun s =>
      (deviceCall (fate .setup) (s.restoreSlots lane
        (decide (base = plan.summary.promptTokens)))).andThen fun s =>
          .ok (s.setSequence lane { s.sequences lane with
            ledger := (s.sequences lane).ledger.take base })

/-- The reuse branches of `start_prefill_lane`. -/
def applyReuse (c : Config) (s : Program) (lane : Lane)
    (plan : RequestPlan) (fate : Fate) : Outcome Program :=
  match plan.reuse with
  | .fullReset => applyFullReset c s lane plan fate
  | .appendAtFrontier => applyAppend c s lane plan fate
  | .restoreTurnCheckpoint => applyRestore c s lane plan fate
  | .restoreResponseCheckpoint => applyRestore c s lane plan fate

-- ============ the new owner

/-- `initial_mtp_extent`. -/
def initialMtpExtent (c : Config) (plan : RequestPlan)
    (promptTokens : Nat) : Nat :=
  if c.speculativeBackend = .mtp then
    min c.draftWindow (min (plan.summary.effectiveOutputTokens - 2)
      (c.capacity - promptTokens - 1))
  else 0

/-- `backend_materialized`. -/
def backendMaterialized (c : Config) (plan : RequestPlan)
    (promptTokens : Nat) : Nat :=
  match c.speculativeBackend with
  | .none => 0
  | .mtp =>
    min c.capacity (promptTokens + (initialMtpExtent c plan promptTokens - 1))
  | .dflash => if 0 < c.dflashFullLayers then promptTokens else 0

/-- The trim to the base, the binding and the growth to the prompt. -/
def bindAndGrow (c : Config) (s : Program) (lane : Lane)
    (plan : RequestPlan) (promptTokens : Nat) (fate : Fate) :
    Outcome Program :=
  (s.trimSequenceKV c lane plan.reuseBase
    (backendKVValid c (s.sequences lane))).andThen fun s =>
      (s.bindSequenceKV lane).andThen fun s =>
        s.materializeSequenceKV c lane promptTokens
          (backendMaterialized c plan promptTokens) fate

/-- The rewrite checkpoint the request starts with. -/
def startCheckpoint (checkpoint : RewriteCheckpoint)
    (p : PreparedPromptData) (plan : RequestPlan) : RewriteCheckpoint :=
  match plan.rewriteCheckpointAction with
  | .drop => .empty
  | .captureNew => .empty
  | .reclassifyExisting =>
    { checkpoint with
      kind := (p.rewriteCheckpoint.map (·.kind)).getD checkpoint.kind }
  | _ => checkpoint

/-- The prompt as it is staged: only the payloads the Vision plan uses are
kept. -/
def stagedPrompt (p : PreparedPromptData) (plan : RequestPlan) :
    PreparedPromptData :=
  match plan.vision with
  | none => p.releaseAllMediaPayloads
  | some vision =>
    { p with
      mediaPayloads := p.mediaPayloads.mapIdx fun i payload =>
        if vision.uses.any fun use => use.itemIndex == i then payload
        else none }

/-- The staged prefill of a started request. -/
def stagedPrefill (c : Config) (p : PreparedPromptData)
    (plan : RequestPlan) (transient : TransientRegion)
    (session : Option VisionPrefillSession) : Prefill where
  prompt := stagedPrompt p plan
  visionPlan := plan.vision
  vision := session
  transient := transient
  rewriteCheckpointCapture := plan.rewriteCheckpointCapture
  base := plan.reuseBase
  cursor := plan.reuseBase
  promptTokens := p.tokenIds.length
  initialMtpExtent := initialMtpExtent c plan p.tokenIds.length
  prepareMtp := plan.prepareMtp
  reuse := plan.reuse
  mtpBridge := plan.mtpBridge

/-- The Vision session of a started request. -/
def stageSession (p : PreparedPromptData) (plan : RequestPlan)
    (transient : TransientRegion) :
    Except Exception (Option VisionPrefillSession) :=
  match plan.vision with
  | none => .ok none
  | some vision =>
    if vision.uses.any fun use =>
        decide (p.mediaPayloads.length ≤ use.itemIndex) then
      .error (.logicError "Vision plan references a missing media payload")
    else
      match makeVisionSession vision transient with
      | .error e => .error e
      | .ok session => .ok (some session)

/-- The sequence with the prompt as its ledger. -/
def stagedSequence (q : SequenceState) (p : PreparedPromptData)
    (plan : RequestPlan) (identity : ResidentPrefixIdentity) :
    SequenceState :=
  { q with
    ropeDelta := p.ropeDelta
    rewriteCheckpoint := startCheckpoint q.rewriteCheckpoint p plan
    mtpDraftCount := 0
    tailHiddenValid :=
      decide (plan.reuseBase = p.tokenIds.length) && q.tailHiddenValid
    ledger := p.tokenIds
    contextCopyConfirmations := 0
    prefixIdentity := identity }

/-- The single-lane DFlash ingress of a start, host and device. -/
def ingestLane (c : Config) (s : Program) (lane : Lane) : Program :=
  { s with
    ingressLane :=
      if c.speculativeBackend = .dflash then lane else s.ingressLane
    frameLane :=
      if c.speculativeBackend = .dflash then lane else s.frameLane }

/-- The sequence gets the prompt as its ledger and the request is
staged. -/
def stagePrompt (c : Config) (s : Program) (lane : Lane)
    (p : PreparedPromptData) (plan : RequestPlan)
    (transient : TransientRegion) : Except Exception Program :=
  match ResidentPrefixIdentity.assign p with
  | .error e => .error e
  | .ok identity =>
    if c.speculativeBackend = .dflash
        ∧ s.dflashStorageReady c lane = false then
      .error (.logicError "DFlash prefill state is incomplete")
    else
      match stageSession p plan transient with
      | .error e => .error e
      | .ok session =>
        .ok (((s.setSequence lane
            (stagedSequence (s.sequences lane) p plan identity)
          ).setRequest lane {
            lifecycle := .prefilling
            pending := .empty
            prefill := some (stagedPrefill c p plan transient session) }
          ).ingestLane c lane)

/-- The lane as the `try` block of `start_prefill_lane` finds it: its
request is gone and it retains nothing. -/
def takeLane (s : Program) (lane : Lane) : Program :=
  (s.setSequence lane { s.sequences lane with retained := false }
    ).setRequest lane { s.requests lane with lifecycle := .empty }

/-- The `try` block of `start_prefill_lane`. -/
def startBody (c : Config) (s : Program) (lane : Lane)
    (p : PreparedPromptData) (plan : RequestPlan)
    (transient : TransientRegion) (d : PrefillDevice) : Outcome Program :=
  (applyReuse c s lane plan d.fate).andThen fun s =>
    (bindAndGrow c s lane plan p.tokenIds.length d.fate).andThen fun s =>
      (deviceCall (d.fate .setup) s).andThen fun s =>
        match stagePrompt c s lane p plan transient with
        | .error e => .throw e s
        | .ok s => advancePrefill c s lane d

/-- `start_prefill_lane`. -/
def startPrefillLane (c : Config) (s : Program) (lane : Lane)
    (p : PreparedPromptData) (plan : RequestPlan)
    (transient : TransientRegion) (d : PrefillDevice) : Outcome Program :=
  match startChecks c s lane p plan transient with
  | .error e => .throw e s
  | .ok () =>
    clearOnThrow [lane] (startBody c (s.takeLane lane) lane p plan transient d)

end Program

end Ginfer.Qwen
