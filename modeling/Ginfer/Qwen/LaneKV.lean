/-
A lane's KV bundle (targets/qwen3_6/impl/runtime/program_impl.h, the
`*_sequence_kv` helpers and `clear_lane`).

Every helper edits the page pools through the two allocations of one
lane. The pools can throw on their own account — a host allocation may
fail — so each call takes a `Fate`: which of its fallible primitives
succeed. The texts thrown here are the helpers' own checks.

Giving pages back is the one place where the ghost forgets: cells past
the pages a lane keeps are no longer known.
-/
import Ginfer.Qwen.Plan

namespace Ginfer.Qwen

open Ginfer.Lib Ginfer.Pool Ginfer.Admission

/-- A call site of a fallible primitive: the result vector of a bundle
reservation, an allocation's page list, the page list of a growing
allocation, and the device work of the call itself, before and at its
launch. -/
inductive Site where
  | bundle
  | pageList (k : PoolId)
  | growth (k : PoolId)
  | setup
  | launch

/-- Which primitives of a call succeed. -/
abbrev Fate := Site → Bool

/-- A device call. -/
def deviceCall (succeeds : Bool) (s : Program) : Outcome Program :=
  if succeeds then .ok s else .throw .device s

namespace Program

/-- A pool operation, as a step of the Program. -/
def onKV (s : Program) (o : Outcome (PagedKV PoolId (Lane × PoolId))) :
    Outcome Program :=
  match o with
  | .ok w => .ok { s with kv := w }
  | .throw e w => .throw e { s with kv := w }

/-- `backend_kv_valid`. -/
def backendKVValid (c : Config) (q : SequenceState) : Nat :=
  match c.speculativeBackend with
  | .none => 0
  | .mtp => q.mtpKVValid
  | .dflash => if c.hasBackendKV then q.dflashContextFrontier else 0

/-- `reserve_sequence_kv`. -/
def reserveSequenceKV (c : Config) (s : Program) (lane : Lane)
    (textPages backendPages : Nat) (fate : Fate) : Outcome Program :=
  if (s.textKV lane).isSome then
    .throw (.logicError "sequence already owns a KV allocation bundle") s
  else if textPages = 0 ∨ (!c.hasBackendKV) ≠ (backendPages == 0) then
    .throw (.invalidArgument
      "KV allocation entitlement does not match the active backend") s
  else
    let text : PagedKVReservation PoolId (Lane × PoolId) :=
      ⟨(lane, .text), some .text, textPages, fate (.pageList .text)⟩
    let backend : PagedKVReservation PoolId (Lane × PoolId) :=
      ⟨(lane, .backend), some .backend, backendPages, fate (.pageList .backend)⟩
    s.onKV (s.kv.reservePagedKVBundle
      (if c.hasBackendKV then [text, backend] else [text]) (fate .bundle))

/-- `resize_sequence_kv_entitlement`. -/
def resizeSequenceKVEntitlement (s : Program) (lane : Lane)
    (textPages backendPages : Nat) (fate : Fate) : Outcome Program :=
  match s.textKV lane with
  | none =>
    .throw (.invalidArgument
      "KV resize entitlement does not match the sequence bundle") s
  | some text =>
    if textPages = 0
        ∨ (s.backendKV lane).isSome ≠ (backendPages != 0) then
      .throw (.invalidArgument
        "KV resize entitlement does not match the sequence bundle") s
    else
      let change : PagedKVResize (Lane × PoolId) :=
        ⟨some (lane, .text), text.mappedPageCount, textPages⟩
      s.onKV (s.kv.resizePagedKVBundle
        (change :: ((s.backendKV lane).toList.map fun backend =>
          ⟨some (lane, .backend), backend.mappedPageCount, backendPages⟩))
        (fate .bundle))

/-- The bundle is engaged and neither allocation is bound. -/
def bindable (s : Program) (lane : Lane) : Bool :=
  ((s.textKV lane).any fun a => a.boundRow.isNone)
    && (s.backendKV lane).all fun a => a.boundRow.isNone

/-- `unbind_sequence_kv`. -/
def unbindSequenceKV (s : Program) (lane : Lane) : Program :=
  { s with
    kv := (s.kv.unbindRow (lane, .backend)).unbindRow (lane, .text) }

/-- The `try` block of `bind_sequence_kv`. -/
def bindBackendKV (s : Program) (lane : Lane) : Outcome Program :=
  if (s.backendKV lane).isSome then
    s.onKV (s.kv.bindRow (lane, .backend) lane.val)
  else .ok s

/-- `bind_sequence_kv`. -/
def bindSequenceKV (s : Program) (lane : Lane) : Outcome Program :=
  if !s.bindable lane then
    .throw (.logicError "KV allocation bundle is unavailable or already bound") s
  else
    (s.onKV (s.kv.bindRow (lane, .text) lane.val)).andThen fun s =>
      match s.bindBackendKV lane with
      | .ok s => .ok s
      | .throw e s => .throw e (s.unbindSequenceKV lane)

/-- One allocation grows to cover `tokens`, when it does not yet. -/
def growKV (s : Program) (lane : Lane) (k : PoolId) (tokens : Nat)
    (fate : Fate) : Outcome Program :=
  if ((s.kv.allocations (lane, k)).map fun a =>
      a.mappedPageCount * pagedKVPageSize).getD 0 < tokens then
    s.onKV (s.kv.materializeTokens (lane, k) tokens (fate (.growth k)))
  else .ok s

/-- `materialize_sequence_kv`. -/
def materializeSequenceKV (c : Config) (s : Program) (lane : Lane)
    (mainTokens backendTokens : Nat) (fate : Fate) : Outcome Program :=
  if (s.textKV lane).isNone ∨ c.capacity < mainTokens
      ∨ c.capacity < backendTokens then
    .throw (.logicError
      "KV materialization request is outside the sequence bundle") s
  else if backendTokens ≠ 0 ∧ (s.backendKV lane).isNone then
    .throw (.logicError
      "backend KV materialization requested without an allocation") s
  else
    (s.growKV lane .text mainTokens fate).andThen fun s =>
      if backendTokens ≠ 0 then s.growKV lane .backend backendTokens fate
      else .ok s

/-- The pool edits of `trim_sequence_kv`. -/
def trimPools (s : Program) (lane : Lane) (mainTokens backendTokens : Nat) :
    Outcome Program :=
  (s.onKV (s.kv.trimTokens (lane, .text) mainTokens)).andThen fun s =>
    if (s.backendKV lane).isSome then
      s.onKV (s.kv.trimTokens (lane, .backend) backendTokens)
    else .ok s

/-- `trim_sequence_kv`. -/
def trimSequenceKV (c : Config) (s : Program) (lane : Lane)
    (mainTokens backendTokens : Nat) : Outcome Program :=
  if (s.textKV lane).isNone ∨ c.capacity < mainTokens
      ∨ mainTokens < backendTokens then
    .throw (.logicError "KV trim request is outside the sequence bundle") s
  else if backendTokens ≠ 0 ∧ (s.backendKV lane).isNone then
    .throw (.logicError "backend KV trim requested without an allocation") s
  else
    (s.trimPools lane mainTokens backendTokens).andThen fun s =>
      .ok (s.setContents lane ((s.contents lane).forget
        (pagesForTokens mainTokens * pagedKVPageSize)
        (pagesForTokens backendTokens * pagedKVPageSize)))

/-- `release_sequence_growth_entitlement`. -/
def releaseSequenceGrowthEntitlement (s : Program) (lane : Lane) :
    Program :=
  { s with
    kv := (s.kv.cancelUnmappedEntitlement (lane, .text)
      ).cancelUnmappedEntitlement (lane, .backend) }

/-- `sequence.kv.reset()`. -/
def resetKV (s : Program) (lane : Lane) : Program :=
  ({ s with
    kv := (s.kv.release (lane, .backend)).release (lane, .text) }
    ).setContents lane ((s.contents lane).forget 0 0)

end Program

/-- What `clear_lane` leaves of a sequence. -/
def SequenceState.cleared (q : SequenceState) : SequenceState :=
  { SequenceState.empty with
    ropeDelta := q.ropeDelta
    mtpDrafts := q.mtpDrafts }

namespace Program

/-- `clear_lane`. -/
def clearLane (s : Program) (lane : Lane) : Program :=
  ((s.resetKV lane).setSequence lane (s.sequences lane).cleared
    ).setRequest lane .empty

/-- `abort_lane`. -/
def abortLane (c : Config) (s : Program) (lane : Lane) : Program :=
  if c.maxConcurrency ≤ lane.val then s else s.clearLane lane

/-- `evict_retained_lane`. -/
def evictRetainedLane (c : Config) (s : Program) (lane : Lane) : Program :=
  if s.hasRetainedLane c lane then s.clearLane lane else s

/-- The `catch (...)` blocks of the lane operations: the lanes of the call
are cleared and the exception goes on. -/
def clearOnThrow (lanes : List Lane) (o : Outcome Program) : Outcome Program :=
  match o with
  | .ok s => .ok s
  | .throw e s => .throw e (lanes.foldl clearLane s)

/-- `dflash_storage_ready`. -/
def dflashStorageReady (c : Config) (s : Program) (lane : Lane) : Bool :=
  ((s.textKV lane).any fun a => a.boundRow.isSome)
    && if 0 < c.dflashFullLayers then
         (s.backendKV lane).any fun a => a.boundRow.isSome
       else (s.backendKV lane).isNone

/-- `ordered_reset`. -/
def orderedReset (s : Program) (lane : Lane) (fate : Fate) : Outcome Program :=
  (deviceCall (fate .setup) s).andThen fun s =>
    .ok ((s.setSequence lane { s.sequences lane with
        textKVValid := 0
        mtpKVValid := 0
        dflashContextFrontier := 0 }
      ).setContents lane { s.contents lane with state := some [] })

end Program

end Ginfer.Qwen
