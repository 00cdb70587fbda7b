/-
Resolving pending lanes (`resolve_prefill_lane`, `resolve_pending_batch`
and `enqueue_dflash_context_append` of
targets/qwen3_6/impl/runtime/program_impl.h).

A speculative batch is validated row by row before anything moves. Then
the committed columns are folded into the state slots; when some row ends
early, the tails of ALL rows are selected again from the frame; the
features of the DFlash lanes that finish enter their contexts. Only then
does the host state of each row move, with its pages trimmed to the new
frontier, and a finished lane keep what it holds, unbound and without its
growth entitlement.
-/
import Ginfer.Qwen.Decode

namespace Ginfer.Qwen

open Ginfer.Lib Ginfer.Pool Ginfer.Admission

namespace Program

-- ============ one token at a time

/-- A finished lane is retained: its growth entitlement is released and
its rows are unbound. -/
def retain (s : Program) (lane : Lane) : Program :=
  let s := (s.releaseSequenceGrowthEntitlement lane).unbindSequenceKV lane
  s.setSequence lane { s.sequences lane with retained := true }

/-- The end of a resolution. -/
def settleLane (s : Program) (lane : Lane) (terminal : Bool) : Program :=
  (if terminal then s.retain lane else s).setRequest lane
    { s.requests lane with
      lifecycle := if terminal then .complete else .active
      pending := .empty }

/-- `resolve_non_speculative_pending`. -/
def resolveNonSpeculativePending (c : Config) (s : Program) (lane : Lane)
    (acceptedTokens : Nat) (terminal : Bool) : Outcome Program :=
  let q := s.sequences lane
  let pending := (s.requests lane).pending
  if (s.requests lane).lifecycle ≠ .pending then
    .throw (.logicError "pending resolution requires a pending generated round") s
  else if (pending.kind ≠ .begin ∧ pending.kind ≠ .ordinary)
      ∨ pending.produced ≠ 1 ∨ acceptedTokens ≠ 1 then
    .throw (.logicError
      "non-speculative pending round must commit its single token") s
  else
    let q :=
      if pending.kind = .begin then
        { q with
          executionFrontier := pending.promptTokens
          ledgerFrontier := pending.promptTokens + 1 }
      else
        { q with
          executionFrontier := pending.baseE + pending.produced
          ledgerFrontier := pending.baseS + pending.produced }
    let s := s.setSequence lane q
    if q.ledgerFrontier ≠ q.executionFrontier + 1
        ∨ q.ledger.length ≠ q.ledgerFrontier
        ∨ q.prefixIdentity.size ≠ q.ledgerFrontier then
      .throw (.logicError "resolved round did not establish a valid frontier") s
    else
      (s.trimSequenceKV c lane q.textKVValid (backendKVValid c q)).andThen
        fun s =>
          .ok ((s.setSequence lane { s.sequences lane with
              mtpDraftCount :=
                if terminal then 0 else (s.sequences lane).mtpDraftCount }
            ).settleLane lane terminal)

/-- `resolve_prefill_lane`. -/
def resolvePrefillLane (c : Config) (s : Program) (lane : Lane)
    (terminal : Bool) : Outcome Program :=
  if c.maxConcurrency ≤ lane.val then
    .throw (.outOfRange "request lane is out of range") s
  else if (s.requests lane).pending.kind ≠ .begin then
    .throw (.logicError "resolve_prefill_lane requires a pending prefill token") s
  else resolveNonSpeculativePending c s lane 1 terminal

/-- One row of the ordinary branch of `resolve_pending_batch`. -/
def resolveOrdinaryRow (c : Config) (row : RowResolution) (s : Program) :
    Outcome Program :=
  if c.maxConcurrency ≤ row.lane.val ∨ (s.requests row.lane).lifecycle ≠ .pending
      ∨ (s.requests row.lane).pending.kind ≠ .ordinary then
    .throw (.logicError
      "ordinary pending batch no longer matches Program state") s
  else if row.cancelled then .ok (s.clearLane row.lane)
  else
    resolveNonSpeculativePending c s row.lane row.acceptedTokens row.terminal

-- ============ speculative rounds

/-- `committed` of a row. -/
def committed (row : RowResolution) : Nat :=
  if row.cancelled then 0 else row.acceptedTokens

/-- A row that ends before everything it produced. -/
def partialTerminal (s : Program) (row : RowResolution) : Bool :=
  !row.cancelled && row.terminal
    && decide (committed row < (s.requests row.lane).pending.produced)

/-- The sequence is where its pending round found it. -/
def atBase (c : Config) (q : SequenceState) (pending : PendingCandidate) :
    Bool :=
  q.executionFrontier == pending.baseE && q.ledgerFrontier == pending.baseS
    && q.ledger.length == pending.baseS
    && q.prefixIdentity.size == pending.baseS
    && q.textKVValid == pending.baseE
    && (c.speculativeBackend != .mtp || q.mtpKVValid == pending.baseE)
    && (c.speculativeBackend != .dflash
      || q.dflashContextFrontier == pending.baseE)

/-- The validation loop of `resolve_pending_batch`; `window` is the
physical width of the rows before. -/
def validateRows (c : Config) (s : Program) :
    (window : Option Nat) → List RowResolution → Except Exception Unit
  | _, [] => .ok ()
  | window, row :: rest =>
    let pending := (s.requests row.lane).pending
    if c.maxConcurrency ≤ row.lane.val
        ∨ (s.requests row.lane).lifecycle ≠ .pending
        ∨ pending.kind ≠ .speculative then
      .error (.logicError
        "speculative pending batch no longer matches Program state")
    else if c.speculativeBackend = .dflash
        ∧ (pending.rowStride = 0 ∨ pending.targetWindow + 1 ≠ pending.rowStride
          ∨ c.dflashTargetWindow < pending.targetWindow
          ∨ window.any fun w => w != pending.targetWindow) then
      .error (.logicError
        "speculative pending rows have inconsistent physical widths")
    else if !atBase c (s.sequences row.lane) pending then
      .error (.logicError "speculative pending row is not at its recorded base")
    else if (row.cancelled ∧ row.acceptedTokens ≠ 0)
        ∨ (row.cancelled = false
          ∧ (committed row = 0 ∨ pending.produced < committed row
            ∨ (row.terminal = false
              ∧ committed row ≠ pending.produced))) then
      .error (.logicError
        "speculative pending row has an invalid committed prefix")
    else validateRows c s (some pending.targetWindow) rest

/-- `gdn_replay_fold` of one row: the committed columns continue the state
they were recorded from. -/
def foldRow (s : Program) (indexed : RowResolution × Nat) : Program :=
  let row := s.round indexed.2
  let d := s.contents indexed.1.lane
  if committed indexed.1 = 0 then s
  else
    s.setContents indexed.1.lane { d with
      state := if d.state = row.source
        then row.source.map (· ++ row.columns.take (committed indexed.1))
        else none }

/-- The tail correction of one row: the hidden column the host selects is
scattered to the lane the frame names. -/
def correctRow (s : Program) (indexed : RowResolution × Nat) : Program :=
  let row := s.round indexed.2
  let produced := (s.requests indexed.1.lane).pending.produced
  let selector :=
    if s.partialTerminal indexed.1 then committed indexed.1 - 1
    else produced - 1
  s.setContents row.lane { s.contents row.lane with
    tailHidden := LaneContents.column row.source row.columns selector }

/-- One row of `enqueue_dflash_context_append`. -/
def appendRow (c : Config) (fate : Lane → Fate) (row : RowResolution)
    (s : Program) : Outcome Program :=
  let start := (s.requests row.lane).pending.baseE
  let count := row.acceptedTokens
  if c.maxConcurrency ≤ row.lane.val ∨ count = 0
      ∨ c.dflashTargetWindow + 1 < count then
    .throw (.logicError "DFlash context append contains an invalid row") s
  else if s.dflashStorageReady c row.lane = false
      ∨ c.capacity < start + count then
    .throw (.logicError
      "DFlash context append is outside retained target storage") s
  else
    (s.materializeSequenceKV c row.lane
      (max (s.sequences row.lane).textKVValid (start + count))
      (if 0 < c.dflashFullLayers then start + count else 0)
      (fate row.lane)).andThen fun s =>
        let d := s.contents row.lane
        .ok (s.setContents row.lane (d.appendContext c.dflashLocalCapacity
          start count d.pendingFeatures))

/-- `enqueue_dflash_context_append` for the rows that finish. -/
def appendFinished (c : Config) (s : Program) (rows : List RowResolution)
    (fate : Lane → Fate) : Outcome Program :=
  let finished := rows.filter fun row => !row.cancelled && row.terminal
  if c.speculativeBackend ≠ .dflash ∨ finished.isEmpty then .ok s
  else if ¬ (finished.map RowResolution.lane).Nodup then
    .throw (.logicError "DFlash context append contains an invalid row") s
  else
    Outcome.forEach (appendRow c fate) finished
      (s.selectLanes (finished.map RowResolution.lane))

/-- The device part of a speculative resolution. -/
def foldBatch (c : Config) (s : Program) (rows : List RowResolution)
    (d : RoundDevice) : Outcome Program :=
  let s := rows.zipIdx.foldl foldRow s
  let s := if rows.any s.partialTerminal
    then rows.zipIdx.foldl correctRow s else s
  (appendFinished c s rows d.resolveFate).andThen (deviceCall d.resolveLaunch)

/-- The sequence of a committed row. -/
def commitSequence (c : Config) (q : SequenceState)
    (pending : PendingCandidate) (row : RowResolution) (frame : RoundRow)
    (identity : ResidentPrefixIdentity) : SequenceState :=
  let n := committed row
  let ledger := q.ledger ++ (List.range n).map frame.licensedTokens
  let frontier := pending.baseE + n
  let q := { q with
    ledger := ledger
    contextCopy := q.contextCopy.append ledger
    prefixIdentity := identity
    executionFrontier := frontier
    ledgerFrontier := pending.baseS + n
    textKVValid := frontier
    tailHiddenValid := true }
  if c.speculativeBackend = .mtp then
    { q with
      mtpKVValid := frontier
      mtpDraftCount := if row.terminal then 0 else frame.nextExtent.toNat
      mtpDrafts := fun j =>
        if row.terminal = false ∧ j < frame.nextExtent.toNat
        then frame.nextDrafts j else q.mtpDrafts j }
  else
    { q with
      dflashContextFrontier :=
        if row.terminal then frontier else pending.baseE
      contextCopyConfirmations :=
        if row.terminal = false ∧ n = pending.produced
            ∧ c.draftWindow ≤ pending.contextCopyExtent
            ∧ c.draftWindow ≤ pending.acceptedDrafts
        then min (q.contextCopyConfirmations + 1) 2 else 0 }

/-- One row of the last loop of `resolve_pending_batch`. -/
def resolveRow (c : Config) (indexed : RowResolution × Nat) (s : Program) :
    Outcome Program :=
  let row := indexed.1
  let lane := row.lane
  let q := s.sequences lane
  let pending := (s.requests lane).pending
  if row.cancelled then .ok (s.clearLane lane)
  else
    match q.prefixIdentity.appendGenerated q.ropeDelta (committed row) with
    | .error e => .throw e s
    | .ok identity =>
      let q := commitSequence c q pending row (s.round indexed.2) identity
      ((s.setSequence lane q).trimSequenceKV c lane q.textKVValid
        (backendKVValid c q)).andThen fun s =>
          .ok (s.settleLane lane row.terminal)

/-- The speculative branch of `resolve_pending_batch`. -/
def resolveSpeculative (c : Config) (s : Program)
    (rows : List RowResolution) (d : RoundDevice) : Outcome Program :=
  match validateRows c s none rows with
  | .error e => .throw e s
  | .ok () =>
    let lanes := rows.map RowResolution.lane
    (clearOnThrow lanes (foldBatch c s rows d)).andThen fun s =>
      clearOnThrow lanes (Outcome.forEach (resolveRow c) rows.zipIdx s)

/-- `resolve_pending_batch`. -/
def resolvePendingBatch (c : Config) (s : Program)
    (rows : List RowResolution) (d : RoundDevice) : Outcome Program :=
  if rows.isEmpty || decide (c.maxConcurrency < rows.length) then
    .throw (.invalidArgument
      "pending batch resolution has inconsistent membership") s
  else if c.speculativeBackend = .none then
    Outcome.forEach (resolveOrdinaryRow c) rows s
  else resolveSpeculative c s rows d

end Program

end Ginfer.Qwen
