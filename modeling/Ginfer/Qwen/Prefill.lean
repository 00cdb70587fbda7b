/-
Staged prefill (targets/qwen3_6/impl/runtime: `start_prefill_lane` and
`advance_prefill` of program_impl.h, text_prefill_impl.h, the
`prefill_impl` of text_context_impl.h, and the `VisionPrefillSession` of
vision_context_impl.h).

# What is modelled

A request starts on a free lane: the plan is checked against the lane
once more, the reuse it chose is applied to the KV bundle and the state
slots, the bundle is bound and grown, and the first chunk runs. Every
further `advance` runs one chunk; the last one samples the first token
and leaves the lane pending. Whatever throws inside clears the lane.

What the device computes is an input of the call (`PrefillDevice`): which
primitives succeed, the sampled token, the MTP drafts. What it WRITES is
modelled, in the lane's ghost contents:

- a text chunk runs with a `TextContext` built for the call, whose
  `rope_delta_` starts at zero, so its tokens are executed at their plain
  indices;
- a multimodal chunk takes its rope positions and its visual columns from
  the prompt;
- a DFlash chunk appends its features to the context of the lane the
  device frame names (`frameLane`), and saves the checkpoint of the lane
  the host ingress names (`ingressLane`).
-/
import Ginfer.Qwen.LaneKV

namespace Ginfer.Qwen

open Ginfer.Lib Ginfer.Pool Ginfer.Admission

/-- What the device does during one prefill call. -/
structure PrefillDevice where
  fate : Fate
  token : Int
  drafts : Nat → Int

-- ============ the Vision session

/-- `VisionChunk`: its length, and the item whose columns it holds. -/
structure VisionChunk where
  length : Nat
  active : Option (Nat × VisionItemControl)

/-- The loop over the use spans in `prepare_chunk`: the first span that
meets `begin .. stop`, and where the chunk ends because of the second. -/
def visionWindow (begin : Nat) :
    (stop : Nat) → (active : Option VisionUseSpan) → List VisionUseSpan →
      Option VisionUseSpan × Nat
  | stop, active, [] => (active, stop)
  | stop, active, use :: rest =>
    if use.stop ≤ begin then visionWindow begin stop active rest
    else if stop ≤ use.begin then (active, stop)
    else
      match active with
      | none => visionWindow begin stop (some use) rest
      | some first => (some first, min stop use.begin)

/-- The encoder call of `prepare_chunk` for an item that is not the active
one. -/
def encodeItem (c : Config) (p : PreparedPromptData)
    (session : VisionPrefillSession) (index : Nat)
    (control : VisionItemControl) :
    Except Exception VisionPrefillSession :=
  if session.activeItem.any fun active => decide (index ≤ active) then
    .error (.logicError
      "Vision items are not consumed in strictly increasing order")
  else if p.mediaPayloads[index]?
      ≠ some (some (control.patchCount * preparedVisionPatchFeatures)) then
    .error (.invalidArgument "Vision item patch payload has an invalid shape")
  else if !c.visionWorkspaceFits control then
    .error (.invalidArgument "Vision workspace capacity is too small for request")
  else
    .ok { activeItem := some index
          encodedPayloadsPendingRelease :=
            session.encodedPayloadsPendingRelease ++ [index] }

/-- `prepare_chunk` once it has found its active span. -/
def prepareItem (c : Config) (p : PreparedPromptData)
    (plan : VisionPrefillPlan) (transient : TransientRegion)
    (session : VisionPrefillSession) (index : Nat) :
    Except Exception (VisionItemControl × VisionPrefillSession) :=
  match plan.control[index]?, p.visionItems[index]? with
  | some control, some source =>
    if p.mediaPayloads.length ≤ index then
      .error (.logicError "Vision prefill item index is out of range")
    else if source.modality ≠ control.modality ∨ source.grid ≠ control.grid
        ∨ source.patchBegin ≠ control.patchBegin
        ∨ source.patchCount ≠ control.patchCount then
      .error (.invalidArgument
        "Vision prefill plan does not describe the prepared item")
    else if 2 ^ 31 ≤ control.mergedCount then
      .error (.overflowError "Vision item output columns exceed int32")
    else if transient.size < c.visionOutHidden * control.mergedCount * 2
    then
      .error (.invalidArgument "Vision item output transient is too small")
    else if session.activeItem = some index then .ok (control, session)
    else
      match encodeItem c p session index control with
      | .error e => .error e
      | .ok session' => .ok (control, session')
  | _, _ => .error (.logicError "Vision prefill item index is out of range")

/-- `VisionPrefillSession::prepare_chunk`. -/
def prepareChunk (c : Config) (p : PreparedPromptData)
    (plan : VisionPrefillPlan) (transient : TransientRegion)
    (session : VisionPrefillSession) (begin nominalLength : Nat) :
    Except Exception (VisionChunk × VisionPrefillSession) :=
  if nominalLength = 0 ∨ p.tokenIds.length ≤ begin then
    .error (.invalidArgument "Vision chunk range is empty or outside the prompt")
  else
    let (active, stop) := visionWindow begin
      (min (begin + nominalLength) p.tokenIds.length) none plan.uses
    if stop ≤ begin then
      .error (.logicError "Vision chunk cap made no forward progress")
    else
      match active with
      | none => .ok (⟨stop - begin, none⟩, session)
      | some use =>
        match prepareItem c p plan transient session use.itemIndex with
        | .error e => .error e
        | .ok (control, session') =>
          .ok (⟨stop - begin, some (use.itemIndex, control)⟩, session')

/-- The `VisionPrefillSession` constructor. -/
def makeVisionSession (plan : VisionPrefillPlan)
    (transient : TransientRegion) : Except Exception VisionPrefillSession :=
  if plan.control.isEmpty || plan.uses.isEmpty then
    .error (.invalidArgument "Vision prefill plan has no suffix item spans")
  else if transient.size = 0 ∨ transient.alignment < 256 then
    .error (.invalidArgument
      "Vision item output transient is missing or misaligned")
  else .ok ⟨none, []⟩

-- ============ one chunk

/-- Where a chunk of nominal length `nominal` ends so that a checkpoint
inside it falls on its boundary. -/
def chunkLength (cursor nominal : Nat) (capture : Option Nat) : Nat :=
  match capture with
  | none => nominal
  | some frontier =>
    if cursor < frontier ∧ frontier < cursor + nominal
    then frontier - cursor else nominal

/-- The chunk `cursor .. cursor + length` ends at the checkpoint. -/
def chunkCaptures (cursor length : Nat) (capture : Option Nat) : Bool :=
  capture.any fun frontier =>
    decide (cursor < frontier ∧ cursor + length = frontier)

/-- The identities a text chunk executes. -/
def textChunkIdentities (p : PreparedPromptData) (cursor length : Nat) :
    List TokenIdentity :=
  (List.range' cursor length).map fun i =>
    TokenIdentity.text (p.tokenIds.getD i 0) i

/-- What a multimodal chunk embeds at index `i`: the active item's column
when it has one there. -/
def chunkEmbedding (p : PreparedPromptData)
    (active : Option (Nat × VisionItemControl)) (token : Int) (i : Nat) :
    Embedding :=
  match active with
  | some (index, control) =>
    if i ∈ control.scatterIndices
    then ⟨token, control.modality.code, p.visionItems[index]?⟩
    else ⟨token, 0, none⟩
  | none => ⟨token, 0, none⟩

/-- The identities a multimodal chunk executes. -/
def multimodalChunkIdentities (p : PreparedPromptData)
    (active : Option (Nat × VisionItemControl)) (cursor length : Nat) :
    List TokenIdentity :=
  (List.range' cursor length).map fun i =>
    { input := chunkEmbedding p active (p.tokenIds.getD i 0) i
      position := fun axis => (p.positionAxis axis).getD i 0 }

/-- What MTP embeds beside column `i`: the next token of the prompt, or
the sampled one after the last. -/
def nextEmbedding (p : PreparedPromptData)
    (active : Option (Nat × VisionItemControl)) (sampled : Int) (i : Nat) :
    Embedding :=
  if i + 1 < p.tokenIds.length
  then chunkEmbedding p active (p.tokenIds.getD (i + 1) 0) (i + 1)
  else ⟨sampled, 0, none⟩

namespace LaneContents

/-- The MTP cells of a forward pass over `ids` at `base ..`. -/
def mtpCells (source : Option History) (ids : List TokenIdentity)
    (next : Nat → Embedding) (j : Nat) : Option MtpCell :=
  match column source ids j, ids[j]? with
  | some hidden, some id => some ⟨hidden, next j, id.position⟩
  | _, _ => none

/-- The drafts proposed after position `base` overwrite the cells from
`base` on. -/
def writeDraftCells (d : LaneContents) (base extent : Nat) : LaneContents :=
  { d with
    mtpKV := writeCells d.mtpKV base (extent - 1) fun _ => none }

/-- What one prefill chunk over `ids` writes for its own lane: the text
cells and the state, the MTP cells, and the checkpoint when it ends
there. -/
def prefillChunk (d : LaneContents) (cursor : Nat)
    (ids : List TokenIdentity) (prepareMtp : Bool)
    (next : Nat → Embedding) (captures : Bool) : LaneContents :=
  let source := d.read cursor
  let d := d.execute cursor ids
  let d :=
    if prepareMtp then
      { d with
        mtpKV := writeCells d.mtpKV cursor ids.length (mtpCells source ids next) }
    else d
  if captures then
    { d with
      checkpointHidden := column source ids (ids.length - 1)
      checkpointState := d.state }
  else d

end LaneContents

/-- `PrefillChunkResult`. -/
structure PrefillChunkResult where
  processedTokens : Nat
  finalized : Bool

namespace Program

/-- The feature sink of a DFlash chunk. -/
def consumePrefillChunk (c : Config) (s : Program) (cursor length : Nat)
    (columns : Nat → Option History) (captures : Bool) : Program :=
  if c.speculativeBackend = .dflash then
    let s := s.setContents s.frameLane
      ((s.contents s.frameLane).appendContext c.dflashLocalCapacity cursor
        length columns)
    if captures then
      s.setContents s.ingressLane { s.contents s.ingressLane with
        checkpointContext := (s.contents s.ingressLane).localContext }
    else s
  else s

/-- What a chunk over `ids` leaves on the device. -/
def runChunk (c : Config) (s : Program) (lane : Lane) (staged : Prefill)
    (ids : List TokenIdentity) (active : Option (Nat × VisionItemControl))
    (captures : Bool) (d : PrefillDevice) : Program :=
  let source := (s.contents lane).read staged.cursor
  (s.setContents lane ((s.contents lane).prefillChunk staged.cursor ids
    staged.prepareMtp
    (fun j => nextEmbedding staged.prompt active d.token (staged.cursor + j))
    captures)).consumePrefillChunk c staged.cursor ids.length
      (LaneContents.column source ids) captures

/-- `prefill_text_chunk`. -/
def prefillTextChunk (c : Config) (s : Program) (lane : Lane)
    (staged : Prefill) (nominal : Nat) (finalizeAtEnd : Bool)
    (d : PrefillDevice) : Program × PrefillChunkResult :=
  let capture := staged.rewriteCheckpointCapture.map (·.frontier)
  let length := chunkLength staged.cursor nominal capture
  (s.runChunk c lane staged
    (textChunkIdentities staged.prompt staged.cursor length) none
    (chunkCaptures staged.cursor length capture) d,
    ⟨length, finalizeAtEnd && length == nominal⟩)

/-- `prefill_multimodal_chunk`; the session is stored back. -/
def prefillMultimodalChunk (c : Config) (s : Program) (lane : Lane)
    (staged : Prefill) (plan : VisionPrefillPlan)
    (session : VisionPrefillSession) (nominal : Nat)
    (finalizeAtEnd : Bool) (d : PrefillDevice) :
    Except Exception (Program × PrefillChunkResult × VisionPrefillSession) :=
  if c.speculativeBackend = .dflash then
    .error (.logicError "DFlash staged multimodal prefill is unavailable")
  else
    let capture := staged.rewriteCheckpointCapture.map (·.frontier)
    match prepareChunk c staged.prompt plan staged.transient session
        staged.cursor (chunkLength staged.cursor nominal capture) with
    | .error e => .error e
    | .ok (chunk, session') =>
      .ok (s.runChunk c lane staged
        (multimodalChunkIdentities staged.prompt chunk.active
          staged.cursor chunk.length) chunk.active
        (chunkCaptures staged.cursor chunk.length capture) d,
        ⟨chunk.length, finalizeAtEnd && chunk.length == nominal⟩,
        session')

/-- `release_encoded_media_payloads`. -/
def releaseEncoded (p : PreparedPromptData) (session : VisionPrefillSession) :
    PreparedPromptData × VisionPrefillSession :=
  ({ p with
    mediaPayloads := session.encodedPayloadsPendingRelease.foldl
      (fun payloads index => payloads.set index none) p.mediaPayloads },
    { session with encodedPayloadsPendingRelease := [] })

-- ============ the MTP bridge

/-- `prompt_rope_position`. -/
def promptRopePosition (p : PreparedPromptData) (token : Nat) :
    Except Exception (Fin 3 → Int) :=
  if p.tokenIds.length ≤ token
      ∨ p.positions.length ≠ 3 * p.tokenIds.length then
    .error (.invalidArgument
      "MTP bridge position is outside prepared prompt metadata")
  else .ok fun axis => (p.positionAxis axis).getD token 0

/-- What the bridge before a suffix embeds: the first suffix token, or its
Vision column (`mtp_bridge_multimodal`). -/
def bridgeEmbedding (c : Config) (staged : Prefill) :
    Except Exception (Embedding × Prefill) :=
  let p := staged.prompt
  let token := p.tokenIds.getD staged.base 0
  match staged.visionPlan, staged.vision with
  | some plan, some session =>
    if p.tokenTypes.getD staged.base 0 = 0 then
      .ok (⟨token, 0, none⟩, staged)
    else
      match prepareChunk c p plan staged.transient session staged.base 1
      with
      | .error e => .error e
      | .ok (⟨_, none⟩, _) =>
        .error (.logicError "visual MTP bridge has no encoded Vision item")
      | .ok (⟨_, some (index, control)⟩, session') =>
        if staged.base ∉ control.scatterIndices
            ∨ control.modality.code ≠ p.tokenTypes.getD staged.base 0
        then
          .error (.logicError
            "visual MTP bridge does not match Vision scatter metadata")
        else
          .ok (chunkEmbedding p (some (index, control)) token
            staged.base, { staged with vision := some session' })
  | _, _ => .ok (⟨token, 0, none⟩, staged)

/-- The hidden column the bridge continues. -/
def bridgeHidden (d : LaneContents) (reuse : ReusePath) : Option History :=
  if reuse.isRewriteCheckpointRestore then d.checkpointHidden
  else d.tailHidden

/-- An MTP cell is recomputed from a hidden column. -/
def bridgeCell (d : LaneContents) (hidden : Option History)
    (position : Nat) (next : Embedding) (rope : Fin 3 → Int) :
    LaneContents :=
  { d with
    mtpKV := Function.update d.mtpKV position
      (hidden.map fun h => ⟨h, next, rope⟩) }

/-- The `BeforeSuffix` block of `advance_prefill`. -/
def bridgeBeforeSuffix (c : Config) (s : Program) (lane : Lane)
    (staged : Prefill) : Except Exception (Program × Prefill) :=
  if staged.mtpBridge ≠ .beforeSuffix then .ok (s, staged)
  else if staged.cursor ≠ staged.base ∨ staged.base = 0
      ∨ staged.promptTokens ≤ staged.cursor then
    .error (.logicError "staged MTP bridge is outside the reusable suffix")
  else do
    let rope ← promptRopePosition staged.prompt (staged.base - 1)
    let (next, staged) ← bridgeEmbedding c staged
    let d := s.contents lane
    return ((s.setContents lane (bridgeCell d (bridgeHidden d staged.reuse)
        (staged.base - 1) next rope)
      ).setSequence lane { s.sequences lane with mtpKVValid := staged.base },
      { staged with mtpBridge := .none })

-- ============ the advance

/-- The chunk call of `advance_prefill`: text, or multimodal with the
encoded payloads released after it. -/
def dispatchChunk (c : Config) (s : Program) (lane : Lane)
    (staged : Prefill) (nominal : Nat) (finalCandidate : Bool)
    (d : PrefillDevice) :
    Except Exception (Program × Prefill × PrefillChunkResult) :=
  match staged.visionPlan, staged.vision with
  | some plan, some session =>
    match s.prefillMultimodalChunk c lane staged plan session nominal
        finalCandidate d with
    | .error e => .error e
    | .ok (s, result, session') =>
      let (prompt, session'') := releaseEncoded staged.prompt session'
      .ok (s, { staged with prompt, vision := some session'' }, result)
  | _, _ =>
    let (s, result) :=
      s.prefillTextChunk c lane staged nominal finalCandidate d
    .ok (s, staged, result)

/-- The frontiers after a chunk that reached `cursor`. -/
def chunkFrontiers (c : Config) (q : SequenceState) (prepareMtp : Bool)
    (cursor : Nat) : SequenceState :=
  { q with
    textKVValid := cursor
    mtpKVValid := if prepareMtp then cursor else q.mtpKVValid
    dflashContextFrontier :=
      if c.speculativeBackend = .dflash then cursor
      else q.dflashContextFrontier }

/-- The chunk of `advance_prefill`, up to the cursor it reaches. -/
def advanceChunk (c : Config) (s : Program) (lane : Lane)
    (staged : Prefill) (d : PrefillDevice) :
    Except Exception (Program × Prefill × PrefillChunkResult) :=
  let nominal := min c.prefillChunk (staged.promptTokens - staged.cursor)
  match s.dispatchChunk c lane staged nominal
      (staged.cursor + nominal == staged.promptTokens) d with
  | .error e => .error e
  | .ok (s, staged, result) =>
    if result.processedTokens = 0 ∨ nominal < result.processedTokens then
      .error (.logicError "ordinary prefill chunk made invalid progress")
    else
      let cursor := staged.cursor + result.processedTokens
      .ok (s.setSequence lane (chunkFrontiers c (s.sequences lane)
          staged.prepareMtp cursor),
        { staged with cursor }, result)

/-- `validate_licensed_tokens`. -/
def validateLicensedTokens (tokens : List Int) : Except Exception Unit :=
  if tokens.any fun t => decide (t < 0 ∨ tokenDomain ≤ t) then
    .error (.runtimeError
      "target returned a token outside the 248077-token domain")
  else .ok ()

/-- The checkpoint block at the end of `advance_prefill`. -/
def captureCheckpoint (c : Config) (s : Program) (lane : Lane)
    (staged : Prefill) (q : SequenceState) :
    Except Exception RewriteCheckpoint :=
  match staged.rewriteCheckpointCapture with
  | none => .ok q.rewriteCheckpoint
  | some spec =>
    if spec.frontier = 0 ∨ staged.promptTokens < spec.frontier
        ∨ q.textKVValid < spec.frontier then
      .error (.logicError
        "rewrite checkpoint was not materialized by Text prefill")
    else if c.speculativeBackend = .mtp ∧ (staged.prepareMtp = false
        ∨ q.mtpKVValid < spec.frontier - 1) then
      .error (.logicError "rewrite checkpoint has no complete MTP prefix")
    else if c.speculativeBackend = .dflash
        ∧ (s.dflashStorageReady c lane = false
          ∨ q.dflashContextFrontier < spec.frontier) then
      .error (.logicError "rewrite checkpoint has no complete DFlash prefix")
    else .ok ⟨true, spec.kind, spec.frontier⟩

/-- The sequence with its first generated token. -/
def begunSequence (q : SequenceState) (staged : Prefill)
    (d : PrefillDevice) (identity : ResidentPrefixIdentity) :
    SequenceState :=
  { q with
    ledger := q.ledger ++ [d.token]
    contextCopy := .rebuild (q.ledger ++ [d.token])
    prefixIdentity := identity
    textKVValid := staged.promptTokens
    mtpDraftCount :=
      if staged.prepareMtp then staged.initialMtpExtent else q.mtpDraftCount
    mtpDrafts := fun j =>
      if staged.prepareMtp ∧ j < staged.initialMtpExtent then d.drafts j
      else q.mtpDrafts j
    tailHiddenValid := true }

/-- The frontiers the end of `advance_prefill` checks. -/
def checkPromptFrontiers (c : Config) (q : SequenceState)
    (staged : Prefill) : Except Exception Unit :=
  if staged.prepareMtp ∧ q.mtpKVValid ≠ staged.promptTokens then
    .error (.logicError "staged MTP prefill did not reach the prompt frontier")
  else if staged.prepareMtp = false ∧ c.speculativeBackend = .dflash
      ∧ q.dflashContextFrontier ≠ staged.promptTokens then
    .error (.logicError "staged DFlash prefill did not reach the prompt frontier")
  else .ok ()

/-- The end of `advance_prefill`: the sampled token becomes the lane's
pending candidate. -/
def finishPrefill (c : Config) (s : Program) (lane : Lane)
    (staged : Prefill) (d : PrefillDevice) : Except Exception Program := do
  let q := s.sequences lane
  validateLicensedTokens [d.token]
  checkLedger q
  let identity ← q.prefixIdentity.appendGenerated q.ropeDelta 1
  checkPromptFrontiers c q staged
  let q := begunSequence q staged d identity
  let checkpoint ← captureCheckpoint c s lane staged q
  return (s.setSequence lane { q with rewriteCheckpoint := checkpoint }
    ).setRequest lane {
      lifecycle := .pending
      pending := { PendingCandidate.empty with
        kind := .begin
        promptTokens := staged.promptTokens
        produced := 1 }
      prefill := none }
where
  checkLedger (q : SequenceState) : Except Exception Unit :=
    if q.ledger.length ≠ staged.promptTokens then
      .error (.logicError "candidate token ledger does not match prompt length")
    else .ok ()

/-- `copy_tail` of the last column of the final chunk. -/
def copyLastColumn (s : Program) (lane : Lane) (source : Option History) :
    Program :=
  (s.setContents lane { s.contents lane with tailHidden := source }
    ).setSequence lane { s.sequences lane with tailHiddenValid := true }

/-- The zero-suffix branch of `advance_prefill`: the first token is
sampled from the tail, and MTP bridges over it. -/
def sampleExactHit (s : Program) (lane : Lane) (staged : Prefill)
    (d : PrefillDevice) : Except Exception (Program × Prefill) :=
  if (s.sequences lane).tailHiddenValid = false then
    .error (.logicError "zero-suffix reuse has no target tail hidden")
  else if staged.prepareMtp = false then .ok (s, staged)
  else if staged.mtpBridge ≠ .afterExactHit then
    .error (.logicError "zero-suffix MTP reuse has no exact-hit bridge")
  else do
    let rope ← promptRopePosition staged.prompt (staged.promptTokens - 1)
    let contents := s.contents lane
    return ((s.setContents lane ((bridgeCell contents contents.tailHidden
        (staged.promptTokens - 1) ⟨d.token, 0, none⟩ rope).writeDraftCells
          staged.promptTokens staged.initialMtpExtent)
      ).setSequence lane { s.sequences lane with
        mtpKVValid := staged.promptTokens },
      { staged with mtpBridge := .none })

/-- `text_kv_view` and `mtp_kv_view`. -/
def kvViews (c : Config) (s : Program) (lane : Lane) : Except Exception Unit :=
  match s.textKV lane with
  | none => .error (.logicError "sequence has no KV allocation bundle")
  | some text =>
    if text.boundRow.isNone then
      .error (.logicError "Paged KV allocation is not bound")
    else if c.speculativeBackend = .mtp then
      match s.backendKV lane with
      | none => .error (.logicError "sequence has no MTP KV allocation")
      | some backend =>
        if backend.boundRow.isNone then
          .error (.logicError "Paged KV allocation is not bound")
        else .ok ()
    else .ok ()

/-- What the final chunk leaves besides its cells: the last column as the
tail, and the first drafts. -/
def finalColumns (s : Program) (lane : Lane) (staged : Prefill) : Program :=
  -- The last column of the chunk is the state slot's own history.
  let s := copyLastColumn s lane (s.contents lane).state
  if staged.prepareMtp
  then s.setContents lane ((s.contents lane).writeDraftCells
    staged.promptTokens staged.initialMtpExtent)
  else s

/-- The rest of a unit after its chunk. -/
def afterChunk (c : Config) (s : Program) (lane : Lane) (staged : Prefill)
    (result : PrefillChunkResult) (d : PrefillDevice) :
    Except Exception Program :=
  if result.finalized = false then
    if staged.cursor = staged.promptTokens then
      .error (.logicError "staged prefill reached the prompt without sampling")
    else
      .ok (s.setRequest lane { s.requests lane with prefill := some staged })
  else if staged.cursor ≠ staged.promptTokens then
    .error (.logicError "staged prefill sampled before the prompt frontier")
  else finishPrefill c (s.finalColumns lane staged) lane staged d

/-- One unit of `advance_prefill`: `ok` of the state it leaves the lane
in, still prefilling or pending. -/
def advanceUnit (c : Config) (s : Program) (lane : Lane)
    (staged : Prefill) (d : PrefillDevice) : Except Exception Program := do
  kvViews c s lane
  let (s, staged) ← bridgeBeforeSuffix c s lane staged
  if staged.cursor < staged.promptTokens then
    let (s, staged, result) ← advanceChunk c s lane staged d
    afterChunk c s lane staged result d
  else
    let (s, staged) ← sampleExactHit s lane staged d
    finishPrefill c s lane staged d

/-- `advance_prefill`. -/
def advancePrefill (c : Config) (s : Program) (lane : Lane)
    (d : PrefillDevice) : Outcome Program :=
  match (s.requests lane).lifecycle, (s.requests lane).prefill with
  | .prefilling, some staged =>
    clearOnThrow [lane] ((deviceCall (d.fate .launch) s).andThen fun s =>
      match advanceUnit c s lane staged d with
      | .error e => .throw e s
      | .ok s' => .ok s')
  | _, _ =>
    .throw (.logicError
      "staged prefill step requires an active concurrent request") s

/-- `advance_prefill_lane`. -/
def advancePrefillLane (c : Config) (s : Program) (lane : Lane)
    (d : PrefillDevice) : Outcome Program :=
  if c.maxConcurrency ≤ lane.val then
    .throw (.outOfRange "request lane is out of range") s
  else advancePrefill c s lane d

end Program

end Ginfer.Qwen
