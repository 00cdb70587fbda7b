/-
Decode rounds and their resolution (targets/qwen3_6/impl/runtime:
`decode_batch`, `resolve_pending_batch` and `resolve_prefill_lane` of
program_impl.h, mtp_impl.h, dflash_impl.h).

# What is modelled

A round runs over a batch of active lanes. Every row is checked, its KV
bundle grown, the batch launched, and what the device reports for the row
validated; the lanes are then pending, and `resolvePendingBatch` commits
what the output policy accepted of each row. A throw inside a round
clears every lane of the batch.

What the device computes is an input (`RowResult`: how many drafts the
target accepted, the token after them, the next drafts, and for DFlash
the drafts it proposed). What it writes follows the kernels' documented
effects: the target columns are the anchor and the drafts of the row's
extent, the licensed tokens are the accepted drafts and the token after
them. A speculative round leaves the state slot alone and records the
columns; the resolution folds the committed ones into the slot
(`gdn_replay_fold`).

The frame of a round stays where it is until the next one: the resolution
reads row `r` of it for row `r` of its own membership.
-/
import Ginfer.Qwen.Start

namespace Ginfer.Qwen

open Ginfer.Lib Ginfer.Pool Ginfer.Admission

/-- What the device reports for one row. -/
structure RowResult where
  count : Int
  accepted : Int
  next : Int
  bonus : Int
  nextDrafts : Nat → Int
  proposals : Nat → Int

/-- What the device does during a round and its resolution. -/
structure RoundDevice where
  fate : Lane → Fate
  launch : Bool
  row : Lane → RowResult
  resolveFate : Lane → Fate
  resolveLaunch : Bool

/-- `licensed_tokens` of a row: the accepted drafts, then the correction
or bonus token. -/
def licensedTokens (drafts : Nat → Int) (r : RowResult) (j : Nat) : Int :=
  if (j : Int) < r.accepted then drafts j
  else if (j : Int) = r.accepted then r.bonus else 0

/-- The columns of a target pass: the anchor and `extent` drafts, from
rope position `position` on. -/
def targetColumns (anchor : Int) (drafts : Nat → Int) (extent : Nat)
    (position : Int) : List TokenIdentity :=
  (List.range (extent + 1)).map fun j =>
    TokenIdentity.text (if j = 0 then anchor else drafts (j - 1)) (position + j)

namespace Program

-- ============ membership

/-- The row loop every round begins with; `seen` are the lanes already
passed. -/
def checkRows (c : Config) (label : String) (ready : Lane × Nat → Bool) :
    List Lane → List (Lane × Nat) → Except Exception Unit
  | _, [] => .ok ()
  | seen, row :: rest =>
    if c.maxConcurrency ≤ row.1.val ∨ row.1 ∈ seen then
      .error (.invalidArgument
        (label ++ " batch contains an invalid or duplicate lane"))
    else if !ready row then
      .error (.logicError (label ++ " batch row is not decode-ready"))
    else checkRows c label ready (row.1 :: seen) rest

/-- The membership checks of a round. -/
def checkBatch (c : Config) (label : String) (ready : Lane × Nat → Bool)
    (rows : List (Lane × Nat)) : Except Exception Unit :=
  if rows.isEmpty || decide (c.maxConcurrency < rows.length) then
    .error (.invalidArgument (label ++ " batch membership is invalid"))
  else checkRows c label ready [] rows

/-- The frontier conditions all three backends check. -/
def frontiersReady (c : Config) (q : SequenceState) : Bool :=
  decide (q.executionFrontier < c.capacity)
    && q.ledgerFrontier == q.executionFrontier + 1
    && q.ledger.length == q.ledgerFrontier
    && q.prefixIdentity.size == q.ledgerFrontier

/-- The allocation is live and bound. -/
def bound (s : Program) (lane : Lane) (k : PoolId) : Bool :=
  (s.kv.allocations (lane, k)).any fun a => a.boundRow.isSome

/-- The row conditions of `decode_ordinary_batch`. -/
def ordinaryReady (c : Config) (s : Program) (row : Lane × Nat) : Bool :=
  (s.requests row.1).lifecycle == .active && row.2 != 0
    && s.bound row.1 .text && frontiersReady c (s.sequences row.1)

/-- The row conditions of `decode_mtp_batch`. -/
def mtpReady (c : Config) (s : Program) (row : Lane × Nat) : Bool :=
  let q := s.sequences row.1
  (s.requests row.1).lifecycle == .active && row.2 != 0
    && s.bound row.1 .text && s.bound row.1 .backend
    && frontiersReady c q
    && q.mtpKVValid == q.executionFrontier
    && decide (q.mtpDraftCount ≤ c.draftWindow)

/-- The row conditions of `decode_dflash_batch`. -/
def dflashReady (c : Config) (s : Program) (row : Lane × Nat) : Bool :=
  let q := s.sequences row.1
  (s.requests row.1).lifecycle == .active && row.2 != 0
    && s.dflashStorageReady c row.1
    && frontiersReady c q
    && q.textKVValid == q.executionFrontier
    && decide (q.dflashContextFrontier ≤ q.executionFrontier)
    && decide (q.executionFrontier - q.dflashContextFrontier
      ≤ c.dflashTargetWindow + 1)

-- ============ the rounds

/-- The state part of a row whose round has run. -/
def setPending (s : Program) (lane : Lane) (q : SequenceState)
    (d : LaneContents) (pending : PendingCandidate) : Program :=
  ((s.setSequence lane q).setContents lane d).setRequest lane
    { s.requests lane with lifecycle := .pending, pending := pending }

/-- `decode_ordinary_batch` before its launch, for one row. -/
def prepareOrdinary (c : Config) (d : RoundDevice) (row : Lane × Nat)
    (s : Program) : Outcome Program :=
  s.materializeSequenceKV c row.1
    ((s.sequences row.1).executionFrontier + 1) 0 (d.fate row.1)

/-- The sequence of an ordinary row that sampled `token`. -/
def ordinarySequence (q : SequenceState) (token : Int)
    (identity : ResidentPrefixIdentity) : SequenceState :=
  { q with
    textKVValid := q.executionFrontier + 1
    tailHiddenValid := true
    ledger := q.ledger ++ [token]
    prefixIdentity := identity }

/-- What an ordinary row writes: its anchor is executed, and the hidden
column kept. -/
def ordinaryRowContents (d : LaneContents) (q : SequenceState) :
    LaneContents :=
  let contents := d.execute q.executionFrontier
    [.text (q.ledger.getLastD 0) (q.executionFrontier + q.ropeDelta)]
  { contents with tailHidden := contents.state }

/-- The candidate of an ordinary row. -/
def ordinaryPending (q : SequenceState) : PendingCandidate :=
  { PendingCandidate.empty with
    kind := .ordinary
    baseE := q.executionFrontier
    baseS := q.ledgerFrontier
    produced := 1 }

/-- `decode_ordinary_batch` after its launch, for one row. -/
def commitOrdinary (d : RoundDevice) (row : Lane × Nat) (s : Program) :
    Outcome Program :=
  let lane := row.1
  let q := s.sequences lane
  let token := (d.row lane).bonus
  match validateLicensedTokens [token],
      q.prefixIdentity.appendGenerated q.ropeDelta 1 with
  | .error e, _ => .throw e s
  | _, .error e => .throw e s
  | .ok (), .ok identity =>
    .ok (s.setPending lane (ordinarySequence q token identity)
      (ordinaryRowContents (s.contents lane) q) (ordinaryPending q))

/-- `decode_ordinary_batch`. -/
def decodeOrdinaryBatch (c : Config) (s : Program)
    (rows : List (Lane × Nat)) (d : RoundDevice) : Outcome Program :=
  match checkBatch c "ordinary" (s.ordinaryReady c) rows with
  | .error e => .throw e s
  | .ok () =>
    clearOnThrow (rows.map Prod.fst)
      ((Outcome.forEach (prepareOrdinary c d) rows s).andThen fun s =>
        (deviceCall d.launch s).andThen (Outcome.forEach (commitOrdinary d) rows))

/-- The extent of an MTP row. -/
def mtpExtent (c : Config) (q : SequenceState) (budget : Nat) : Nat :=
  min q.mtpDraftCount (min c.draftWindow
    (min (budget - 1) (c.capacity - q.executionFrontier - 1)))

/-- `decode_mtp_batch` before its launch, for one row. -/
def prepareMtp (c : Config) (d : RoundDevice) (row : Lane × Nat)
    (s : Program) : Outcome Program :=
  let q := s.sequences row.1
  let extent := mtpExtent c q row.2
  s.materializeSequenceKV c row.1 (q.executionFrontier + extent + 1)
    (min c.capacity (q.executionFrontier + extent + c.draftWindow))
    (d.fate row.1)

/-- What an MTP row writes: the text cells of its target columns, the MTP
cells aligned with the licensed tokens, the cells of the next drafts, and
the continuation hidden column. -/
def mtpRowContents (d : LaneContents) (frontier : Nat)
    (columns : List TokenIdentity) (licensed : Nat → Int) (r : RowResult) :
    LaneContents :=
  let source := d.read frontier
  let written := d.writeText frontier columns
  LaneContents.writeDraftCells { written with
    mtpKV := LaneContents.writeCells d.mtpKV frontier r.count.toNat
      (LaneContents.mtpCells source columns fun j => ⟨licensed j, 0, none⟩)
    tailHidden := LaneContents.column source columns r.accepted.toNat }
    (frontier + r.count.toNat) r.next.toNat

/-- The frame row of a speculative round. -/
def setRound (s : Program) (index : Nat) (row : RoundRow) : Program :=
  { s with round := Function.update s.round index row }

/-- What the frame holds for a row. -/
def frameRow (lane : Lane) (d : LaneContents) (q : SequenceState)
    (licensed : Nat → Int) (columns : List TokenIdentity) (r : RowResult) :
    RoundRow where
  lane := lane
  licensedTokens := licensed
  nextExtent := r.next
  nextDrafts := r.nextDrafts
  source := d.read q.executionFrontier
  columns := columns

/-- The target columns of an MTP row. -/
def mtpColumns (c : Config) (q : SequenceState) (budget : Nat) :
    List TokenIdentity :=
  targetColumns (q.ledger.getLastD 0) q.mtpDrafts (mtpExtent c q budget)
    (q.executionFrontier + q.ropeDelta)

/-- The candidate of an MTP row. -/
def mtpPending (q : SequenceState) (r : RowResult) : PendingCandidate :=
  { PendingCandidate.empty with
    kind := .speculative
    baseE := q.executionFrontier
    baseS := q.ledgerFrontier
    produced := r.count.toNat }

/-- `decode_mtp_batch` after its launch, for one row. -/
def commitMtp (c : Config) (d : RoundDevice)
    (indexed : (Lane × Nat) × Nat) (s : Program) : Outcome Program :=
  let lane := indexed.1.1
  let budget := indexed.1.2
  let q := s.sequences lane
  let r := d.row lane
  let licensed := licensedTokens q.mtpDrafts r
  let columns := mtpColumns c q budget
  if r.count ≤ 0 ∨ (c.draftWindow : Int) + 1 < r.count ∨ r.accepted < 0
      ∨ r.accepted + 1 ≠ r.count ∨ r.next < 0
      ∨ (c.draftWindow : Int) < r.next ∨ budget < r.count.toNat
      ∨ c.capacity < q.executionFrontier + r.count.toNat then
    .throw (.runtimeError "MTP batch returned invalid row metadata") s
  else
    match validateLicensedTokens
        ((List.range r.count.toNat).map licensed) with
    | .error e => .throw e s
    | .ok () =>
      let contents := s.contents lane
      .ok ((s.setRound indexed.2 (frameRow lane contents q licensed columns r)
        ).setPending lane q
          (mtpRowContents contents q.executionFrontier columns licensed r)
          (mtpPending q r))

/-- `decode_mtp_batch`. -/
def decodeMtpBatch (c : Config) (s : Program)
    (rows : List (Lane × Nat)) (d : RoundDevice) : Outcome Program :=
  match checkBatch c "MTP" (s.mtpReady c) rows with
  | .error e => .throw e s
  | .ok () =>
    clearOnThrow (rows.map Prod.fst)
      ((Outcome.forEach (prepareMtp c d) rows s).andThen fun s =>
        (deviceCall d.launch s).andThen
          (Outcome.forEach (commitMtp c d) rows.zipIdx))

/-- The drafts a budget and the capacity leave room for. -/
def draftRoom (c : Config) (q : SequenceState) (budget : Nat) : Nat :=
  min (budget - 1) (c.capacity - q.executionFrontier - 1)

/-- The context-copy match of a DFlash row. -/
def contextMatch (c : Config) (q : SequenceState) (budget : Nat) :
    ContextCopyMatch :=
  if c.sampledDFlash2 then
    q.contextCopy.find q.ledger (min c.dflashTargetWindow (draftRoom c q budget))
  else .none

/-- Whether a DFlash round runs at the wide target window. -/
def useWideTarget (c : Config) (s : Program) (rows : List (Lane × Nat)) :
    Bool :=
  useWideContextCopy
    (rows.map fun row =>
      ((contextMatch c (s.sequences row.1) row.2).validTokens,
        (s.sequences row.1).contextCopyConfirmations))
    c.draftWindow c.dflashTargetWindow
    (rows.any fun row =>
      decide (c.draftWindow + 1 < (s.sequences row.1).executionFrontier
        - (s.sequences row.1).dflashContextFrontier))

/-- `context_extent` of a DFlash row. -/
def contextExtent (c : Config) (targetWindow : Nat) (q : SequenceState)
    (budget : Nat) : Nat :=
  min targetWindow (min (contextMatch c q budget).validTokens
    (draftRoom c q budget))

/-- `target_extent` of a DFlash row. -/
def dflashExtent (c : Config) (targetWindow : Nat) (q : SequenceState)
    (budget : Nat) : Nat :=
  if contextExtent c targetWindow q budget ≠ 0
  then contextExtent c targetWindow q budget
  else min c.draftWindow (draftRoom c q budget)

/-- `decode_dflash_batch` before its launch, for one row. -/
def prepareDFlash (c : Config) (targetWindow : Nat) (d : RoundDevice)
    (row : Lane × Nat) (s : Program) : Outcome Program :=
  let q := s.sequences row.1
  s.materializeSequenceKV c row.1
    (q.executionFrontier + dflashExtent c targetWindow q row.2 + 1)
    (if 0 < c.dflashFullLayers then q.executionFrontier else 0)
    (d.fate row.1)

/-- What a DFlash row writes: the pending features of the last round enter
the context, then the target columns their text cells, features and
continuation hidden column. -/
def dflashRowContents (c : Config) (d : LaneContents)
    (contextFrontier frontier : Nat) (columns : List TokenIdentity)
    (r : RowResult) : LaneContents :=
  let source := d.read frontier
  { (d.appendContext c.dflashLocalCapacity contextFrontier
      (frontier - contextFrontier) d.pendingFeatures
      ).writeText frontier columns with
    pendingFeatures := LaneContents.column source columns
    tailHidden := LaneContents.column source columns r.accepted.toNat }

/-- The target columns of a DFlash row. -/
def dflashColumns (c : Config) (targetWindow : Nat) (q : SequenceState)
    (budget : Nat) (r : RowResult) : List TokenIdentity :=
  targetColumns (q.ledger.getLastD 0) r.proposals
    (dflashExtent c targetWindow q budget) q.executionFrontier

/-- The candidate of a DFlash row. -/
def dflashPending (c : Config) (targetWindow : Nat) (q : SequenceState)
    (budget : Nat) (r : RowResult) : PendingCandidate :=
  { PendingCandidate.empty with
    kind := .speculative
    baseE := q.executionFrontier
    baseS := q.ledgerFrontier
    produced := r.count.toNat
    rowStride := targetWindow + 1
    targetWindow := targetWindow
    contextCopyExtent := contextExtent c targetWindow q budget
    acceptedDrafts := r.accepted.toNat }

/-- `decode_dflash_batch` after its launch, for one row. -/
def commitDFlash (c : Config) (targetWindow : Nat) (d : RoundDevice)
    (indexed : (Lane × Nat) × Nat) (s : Program) : Outcome Program :=
  let lane := indexed.1.1
  let budget := indexed.1.2
  let q := s.sequences lane
  let r := d.row lane
  let licensed := licensedTokens r.proposals r
  let columns := dflashColumns c targetWindow q budget r
  if r.count ≤ 0 ∨ (targetWindow : Int) + 1 < r.count ∨ r.accepted < 0
      ∨ r.accepted + 1 ≠ r.count
      ∨ (dflashExtent c targetWindow q budget : Int) < r.accepted
      ∨ budget < r.count.toNat
      ∨ c.capacity < q.executionFrontier + r.count.toNat then
    .throw (.runtimeError "DFlash batch returned invalid row metadata") s
  else
    match validateLicensedTokens
        ((List.range r.count.toNat).map licensed) with
    | .error e => .throw e s
    | .ok () =>
      let contents := s.contents lane
      .ok ((s.setRound indexed.2 (frameRow lane contents q licensed columns r)
        ).setPending lane { q with dflashContextFrontier := q.executionFrontier }
          (dflashRowContents c contents q.dflashContextFrontier
            q.executionFrontier columns r)
          (dflashPending c targetWindow q budget r))

/-- The DFlash ingress names the lanes of the batch, host and device. -/
def selectLanes (s : Program) (lanes : List Lane) : Program :=
  { s with
    ingressLane := lanes.headD firstLane
    frameLane := lanes.headD firstLane }

/-- `decode_dflash_batch`. -/
def decodeDFlashBatch (c : Config) (s : Program)
    (rows : List (Lane × Nat)) (d : RoundDevice) : Outcome Program :=
  match checkBatch c "DFlash" (s.dflashReady c) rows with
  | .error e => .throw e s
  | .ok () =>
    let lanes := rows.map Prod.fst
    let targetWindow :=
      if s.useWideTarget c rows then c.dflashTargetWindow
      else c.draftWindow
    clearOnThrow lanes
      ((Outcome.forEach (prepareDFlash c targetWindow d) rows
        { s with ingressLane := lanes.headD firstLane }).andThen fun s =>
          (deviceCall d.launch (s.selectLanes lanes)).andThen
            (Outcome.forEach (commitDFlash c targetWindow d) rows.zipIdx))

/-- `decode_batch`. -/
def decodeBatch (c : Config) (s : Program) (rows : List (Lane × Nat))
    (d : RoundDevice) : Outcome Program :=
  match c.speculativeBackend with
  | .none => decodeOrdinaryBatch c s rows d
  | .mtp => decodeMtpBatch c s rows d
  | .dflash => decodeDFlashBatch c s rows d

end Program

end Ginfer.Qwen
