/-
The worker's scheduling state (runtime/engine/concurrent_executor.h).

# What is modelled

`ConcurrentExecutor` is a template over the target it drives; `ProgramApi`
is what it calls on `instance_.program`, and everything here is generic
in it. The state is what the worker thread owns: the pending queue, the
lane slots, the cached plans with their versions, the head protection.
One unit of the worker loop is one action of `step`:

- a client's `submit`;
- `expire_pending_requests`;
- `cancel_active_requests`;
- one pass of the `for (;;)` of `try_admit_one` (a pass that removes a
  request is followed by another one, with clients submitting in between);
- `run_prefill_step`;
- `run_decode_round`.

Deadlines and cancellation flags are read by the worker and written by
others, so every read is an input of the unit, as are the decisions of a
request's output session and what the device does. A unit that throws
ends in `fail_all`. The completion of a request (its `done` flag, its
place in the queue count) is Executor/Completion.lean's subject.

`std::abort` in `GenerationBudget::commit` ends the process: the action is
then not enabled. `next_request_id_` and `next_protection_epoch_` are
`std::uint64_t` counters of accepted requests and do not wrap.

Two ghosts follow the current protection: the credit it was frozen with
and the service work of the temporal backfills admitted since.
-/
import Ginfer.Executor.AdmissionPolicy

namespace Ginfer.Admission

open Ginfer.Lib

/-- An index into the executor's and the Program's lane arrays. -/
abbrev Lane := Fin maximumConcurrency

/-- The fields of `RequestPlanSummary` the executor reads. -/
structure RequestPlanSummary where
  promptTokens : Nat
  reusablePromptTokens : Nat
  effectiveOutputTokens : Nat
  transientBytes : Nat
  transientAlignment : Nat
  admission : AdmissionResources
  serviceWorkQuanta : Nat

/-- `TransientRegion`; an empty one has no data pointer. -/
structure TransientRegion where
  size : Nat
  alignment : Nat

/-- A default-constructed `TransientRegion`. -/
def TransientRegion.none : TransientRegion := ⟨0, 1⟩

/-- `OutputDecision`. -/
structure OutputDecision where
  acceptedTokens : Nat
  finished : Bool

/-- One row of `resolve_pending_batch`. -/
structure RowResolution where
  lane : Lane
  acceptedTokens : Nat
  terminal : Bool
  cancelled : Bool

/-- What the executor calls on a target's `Program`. A prompt stands for
the prepared prompt with the request's execution options; `Dev` is what
the device does during a call. -/
structure ProgramApi (π Prompt Base Plan Dev : Type) where
  planRequestBase : π → Prompt → Except Exception Base
  baseSummary : Base → RequestPlanSummary
  planRequestForLane : π → Lane → Prompt → Base → Except Exception Plan
  planSummary : Plan → RequestPlanSummary
  canAdmitLane : π → Lane → Plan → Bool
  canAdmitLaneAfterRetainedEviction : π → Lane → Plan → Bool
  hasRetainedLane : π → Lane → Bool
  evictRetainedLane : π → Lane → π
  startPrefillLane : π → Lane → Prompt → Plan → TransientRegion → Dev → Outcome π
  advancePrefillLane : π → Lane → Dev → Outcome π
  /-- `PrefillStepResult::complete` of the call just made on the lane -/
  prefillComplete : π → Lane → Bool
  resolvePrefillLane : π → Lane → Bool → Outcome π
  decodeBatch : π → List (Lane × Nat) → Dev → Outcome π
  /-- the licensed count of the lane's row in the round just made -/
  rowCount : π → Lane → Nat
  resolvePendingBatch : π → List RowResolution → Outcome π
  abortLane : π → Lane → π

/-- What the constructor fixes: the bounds it checks, the admission
capacity it reads off the Program, and the request memory. -/
structure Config where
  maxConcurrency : Nat
  capacity : AdmissionResources
  frozenTransientBytes : Nat
  max_concurrency_pos : 0 < maxConcurrency
  max_concurrency_le : maxConcurrency ≤ maximumConcurrency
  capacity_lanes : capacity.activeLanes = maxConcurrency
  capacity_main_pos : 0 < capacity.mainKVPages

/-- The lanes of the executor's loops, in order. -/
def Config.lanes (c : Config) : List Lane :=
  (List.finRange maximumConcurrency).filter fun lane =>
    decide (lane.val < c.maxConcurrency)

/-- `Request`: what the worker keeps of one. -/
structure Request (Prompt Base Plan : Type) where
  id : Nat
  prompt : Prompt
  basePlan : Option Base
  lanePlans : Lane → Option Plan
  lanePlanVersions : Lane → Nat
  budgetRemaining : Nat
  decodeReady : Bool
  admissionResources : AdmissionResources
  remainingServiceWork : Nat
  backfillEpoch : Nat
  backfillClass : BackfillClass

/-- A submitted request. -/
def Request.submitted {Prompt Base Plan : Type} (id : Nat)
    (prompt : Prompt) : Request Prompt Base Plan where
  id := id
  prompt := prompt
  basePlan := none
  lanePlans := fun _ => none
  lanePlanVersions := fun _ => 0
  budgetRemaining := 0
  decodeReady := false
  admissionResources := ⟨0, 0, 0⟩
  remainingServiceWork := 0
  backfillEpoch := 0
  backfillClass := .none

/-- The worker's state. -/
structure State (π Prompt Base Plan : Type) where
  program : π
  pending : List (Request Prompt Base Plan)
  slots : Lane → Option (Request Prompt Base Plan)
  prefillLane : Option Lane
  lanePlanVersions : Lane → Nat
  protection : Option AdmissionProtection
  nextProtectionEpoch : Nat
  nextRequestId : Nat
  failed : Bool
  /-- the credit the current protection was made with -/
  frozenCredit : Nat
  /-- the service work of the temporal backfills it has admitted -/
  temporalWork : Nat

/-- `LaneChoice`. -/
structure LaneChoice where
  lane : Lane
  evictRetained : Bool

/-- What a unit reads that others write: the cancellation flags and the
clock against the deadlines, by request id, at the check before planning
and again at the one before admission. -/
structure Observations where
  cancelled : Nat → Bool
  expired : Nat → Bool
  cancelledLate : Nat → Bool
  expiredLate : Nat → Bool

/-- What happens while a prefill unit runs: the device, the cancellation
flag after it, and the output session's decision on the first token, which
it takes knowing the budget that is left. -/
structure PrefillUnit (Dev : Type) where
  device : Dev
  cancelled : Bool
  decision : Nat → Except Exception OutputDecision

/-- What happens while a decode round runs; the session of a lane decides
on its row knowing the budget that is left. -/
structure DecodeUnit (Dev : Type) where
  device : Dev
  cancelled : Lane → Bool
  decision : Lane → Nat → Except Exception OutputDecision

section

variable {π Prompt Base Plan Dev : Type}
  (api : ProgramApi π Prompt Base Plan Dev) (c : Config)

namespace State

/-- `invalidate_lane_plans`. -/
def invalidateLanePlans (s : State π Prompt Base Plan) (lane : Lane) :
    State π Prompt Base Plan :=
  { s with
    lanePlanVersions := Function.update s.lanePlanVersions lane
      (s.lanePlanVersions lane + 1) }

/-- `slots_[lane] = request`, or its reset. -/
def setSlot (s : State π Prompt Base Plan) (lane : Lane)
    (request : Option (Request Prompt Base Plan)) :
    State π Prompt Base Plan :=
  { s with slots := Function.update s.slots lane request }

/-- `remove_completed_slot`. -/
def removeCompletedSlot (s : State π Prompt Base Plan) (lane : Lane) :
    State π Prompt Base Plan :=
  (s.setSlot lane none).invalidateLanePlans lane

/-- `prefill_lane_.reset()` when this lane holds it. -/
def releasePrefill (s : State π Prompt Base Plan) (lane : Lane) :
    State π Prompt Base Plan :=
  if s.prefillLane = some lane then { s with prefillLane := none } else s

/-- `erase_pending`. -/
def erasePending (s : State π Prompt Base Plan) (id : Nat) :
    State π Prompt Base Plan :=
  { s with pending := s.pending.filter fun r => r.id != id }

/-- `clear_protection_if_head`. -/
def clearProtectionIfHead (s : State π Prompt Base Plan) (id : Nat) :
    State π Prompt Base Plan :=
  if s.protection.any fun p => p.headRequestId == id
  then { s with protection := none } else s

/-- A request leaves the queue to be completed: the removals of
`try_admit_one` and `admit_planned_request`. -/
def removePending (s : State π Prompt Base Plan) (id : Nat) :
    State π Prompt Base Plan :=
  (s.erasePending id).clearProtectionIfHead id

/-- The plans cached in a pending request are kept. -/
def updatePending (s : State π Prompt Base Plan)
    (request : Request Prompt Base Plan) : State π Prompt Base Plan :=
  { s with
    pending := s.pending.map fun r => if r.id = request.id then request else r }

/-- The snapshot `active_admission_set` takes of an occupied slot. -/
def snapshot (request : Request Prompt Base Plan) :
    ActiveAdmissionSnapshot where
  requestId := request.id
  resources := request.admissionResources
  remainingWorkQuanta := request.remainingServiceWork
  backfillEpoch := request.backfillEpoch
  backfillClass := request.backfillClass

/-- The requests in the slots, by lane. -/
def active (s : State π Prompt Base Plan) : List (Request Prompt Base Plan) :=
  c.lanes.filterMap s.slots

/-- `active_admission_set`. -/
def activeAdmissionSet (s : State π Prompt Base Plan) :
    Except Exception (List ActiveAdmissionSnapshot) :=
  if (s.active c).any fun r =>
      r.admissionResources.activeLanes == 0 || r.remainingServiceWork == 0
  then .error (.logicError "active request has no admission accounting")
  else .ok ((s.active c).map snapshot)

end State

/-- `consume_service_work` on the request of `lane`. -/
def consumeServiceWork (s : State π Prompt Base Plan) (lane : Lane)
    (work : Nat) : Outcome (State π Prompt Base Plan) :=
  match s.slots lane with
  | none => .ok s
  | some request =>
    if work = 0 ∨ request.remainingServiceWork < work then
      .throw (.logicError ("request service projection consumed "
        ++ toString work ++ " quanta with "
        ++ toString request.remainingServiceWork ++ " remaining")) s
    else
      .ok (s.setSlot lane (some { request with
        remainingServiceWork := request.remainingServiceWork - work }))

-- ============ lane selection

/-- `ensure_base_plan`. -/
def ensureBasePlan (p : π) (request : Request Prompt Base Plan) :
    Except Exception (Request Prompt Base Plan × Base) := do
  let base ← match request.basePlan with
    | some base => .ok base
    | none => api.planRequestBase p request.prompt
  let summary := api.baseSummary base
  if summary.admission.activeLanes ≠ 1 ∨ summary.serviceWorkQuanta = 0 then
    .error (.logicError "target request plan has invalid admission accounting")
  else .ok ({ request with basePlan := some base }, base)

/-- `ensure_lane_plan` for a lane without a request; a plan is kept while
the lane's version stands. -/
def ensureLanePlan (s : State π Prompt Base Plan)
    (request : Request Prompt Base Plan) (base : Base) (lane : Lane) :
    Except Exception (Request Prompt Base Plan × Plan) :=
  match request.lanePlans lane with
  | some plan =>
    if request.lanePlanVersions lane = s.lanePlanVersions lane then
      .ok (request, plan)
    else replan
  | none => replan
where
  replan : Except Exception (Request Prompt Base Plan × Plan) :=
    match api.planRequestForLane s.program lane request.prompt base with
    | .error e => .error e
    | .ok plan =>
      .ok ({ request with
        lanePlans := Function.update request.lanePlans lane (some plan)
        lanePlanVersions := Function.update request.lanePlanVersions lane
          (s.lanePlanVersions lane) }, plan)

/-- One of the two loops of `find_admission_lane`: among the free lanes
that pass `admissible`, the first of those with the longest reuse. -/
def scanLanes (s : State π Prompt Base Plan) (base : Base)
    (admissible : Lane → Plan → Bool) :
    List Lane → Request Prompt Base Plan → Option (Lane × Nat) →
      Except Exception (Request Prompt Base Plan × Option (Lane × Nat))
  | [], request, selected => .ok (request, selected)
  | lane :: rest, request, selected =>
    if (s.slots lane).isSome then
      scanLanes s base admissible rest request selected
    else
      match ensureLanePlan api s request base lane with
      | .error e => .error e
      | .ok (request', plan) =>
        let reuse := (api.planSummary plan).reusablePromptTokens
        let better := selected.all fun best => decide (best.2 < reuse)
        scanLanes s base admissible rest request'
          (if admissible lane plan && better then some (lane, reuse)
           else selected)

/-- `find_admission_lane`. -/
def findAdmissionLane (s : State π Prompt Base Plan)
    (request : Request Prompt Base Plan) (base : Base) :
    Except Exception (Request Prompt Base Plan × Option LaneChoice) :=
  match scanLanes api s base (api.canAdmitLane s.program) c.lanes request
      none with
  | .error e => .error e
  | .ok (request', some (lane, _)) => .ok (request', some ⟨lane, false⟩)
  | .ok (request', none) =>
    match scanLanes api s base
        (api.canAdmitLaneAfterRetainedEviction s.program) c.lanes request'
        none with
    | .error e => .error e
    | .ok (request'', some (lane, _)) => .ok (request'', some ⟨lane, true⟩)
    | .ok (request'', none) => .ok (request'', none)

-- ============ admission

/-- `resolve_round` for the first token, inside `resolve_prefill_step`. -/
def resolveRound (s : State π Prompt Base Plan) (lane : Lane)
    (decision : Nat → Except Exception OutputDecision) :
    Outcome (State π Prompt Base Plan) :=
  match s.slots lane with
  | none => .ok s
  | some request =>
    match decision request.budgetRemaining with
    | .error e => .throw e s
    | .ok d =>
      if d.acceptedTokens ≠ 1 then
        .throw (.logicError
          "prefill output policy did not accept its licensed token") s
      else
        match api.resolvePrefillLane s.program lane d.finished with
        | .throw e p => .throw e { s with program := p }
        | .ok p =>
          let s := { s with program := p }
          if d.finished then .ok (s.removeCompletedSlot lane)
          else
            .ok (s.setSlot lane (some { request with
              budgetRemaining := request.budgetRemaining - 1
              decodeReady := true }))

/-- `resolve_prefill_step`, after the target's call on `lane` returned. -/
def resolvePrefillStep (s : State π Prompt Base Plan) (lane : Lane)
    (unit : PrefillUnit Dev) : Outcome (State π Prompt Base Plan) :=
  (consumeServiceWork s lane 1).andThen fun s =>
    if unit.cancelled then
      .ok (({ s.releasePrefill lane with
        program := api.abortLane s.program lane }).removeCompletedSlot lane)
    else if !api.prefillComplete s.program lane then .ok s
    else resolveRound api (s.releasePrefill lane) lane unit.decision

/-- The eviction loop of `admit_planned_request`: other free lanes lose
their retained sequences, in order, until the plan can be admitted. -/
def evictUntilAdmissible (choice : Lane) (plan : Plan) :
    List Lane → State π Prompt Base Plan → State π Prompt Base Plan
  | [], s => s
  | lane :: rest, s =>
    if api.canAdmitLane s.program choice plan then s
    else if lane ≠ choice ∧ (s.slots lane).isNone
        ∧ api.hasRetainedLane s.program lane then
      evictUntilAdmissible choice plan rest
        ({ s with program := api.evictRetainedLane s.program lane
          }.invalidateLanePlans lane)
    else evictUntilAdmissible choice plan rest s

/-- `RequestMemory::activate` and `region`. -/
def activateRegion (summary : RequestPlanSummary) :
    Except Exception TransientRegion :=
  if summary.transientBytes = 0 then
    if summary.transientAlignment ≠ 1 then
      .error (.invalidArgument "an empty transient region must use alignment one")
    else .ok .none
  else if !(summary.transientAlignment.isPowerOfTwo
      && decide (summary.transientAlignment ≤ 256)) then
    .error (.invalidArgument "unsupported transient region alignment")
  else if c.frozenTransientBytes < summary.transientBytes then
    .error (.invalidArgument
      "request transient exceeds its frozen startup capacity")
  else .ok ⟨summary.transientBytes, summary.transientAlignment⟩

/-- The request as `admit_planned_request` puts it into its slot. -/
def Request.admitted (request : Request Prompt Base Plan)
    (summary : RequestPlanSummary) (backfillClass : BackfillClass)
    (backfillEpoch : Nat) : Request Prompt Base Plan :=
  { request with
    basePlan := none
    lanePlans := fun _ => none
    budgetRemaining := summary.effectiveOutputTokens
    decodeReady := false
    admissionResources := summary.admission
    remainingServiceWork := summary.serviceWorkQuanta
    backfillEpoch := backfillEpoch
    backfillClass := backfillClass }

/-- The temporal branch of `admit_planned_request`: the backfill pays its
whole service work out of the credit. -/
def payTemporal (s : State π Prompt Base Plan)
    (summary : RequestPlanSummary) (backfillClass : BackfillClass)
    (backfillEpoch : Nat) : Outcome (State π Prompt Base Plan) :=
  if backfillClass ≠ .temporal then .ok s
  else
    match s.protection with
    | none =>
      .throw (.logicError "temporal backfill lost its protected credit") s
    | some p =>
      if p.epochId ≠ backfillEpoch
          ∨ p.temporalCredit < summary.serviceWorkQuanta then
        .throw (.logicError "temporal backfill lost its protected credit") s
      else
        .ok { s with
          protection := some { p with
            temporalCredit := p.temporalCredit - summary.serviceWorkQuanta }
          temporalWork := s.temporalWork + summary.serviceWorkQuanta }

/-- The `catch` of `admit_planned_request`. -/
def admissionFails (s : State π Prompt Base Plan) (lane : Lane)
    (targetStarted : Bool) : State π Prompt Base Plan :=
  ({ s with
    program :=
      if targetStarted then api.abortLane s.program lane else s.program }
    ).releasePrefill lane |>.removeCompletedSlot lane

/-- The target's part of the `try` block of `admit_planned_request`, and
its handler. -/
def startTarget (s : State π Prompt Base Plan) (prompt : Prompt)
    (lane : Lane) (plan : Plan) (transient : TransientRegion)
    (unit : PrefillUnit Dev) : Outcome (State π Prompt Base Plan) :=
  match api.startPrefillLane s.program lane prompt plan transient unit.device
  with
  | .throw e p =>
    .throw e (admissionFails api { s with program := p } lane true)
  | .ok p =>
    let s := { s with program := p }
    if !api.prefillComplete p lane && s.prefillLane != some lane then
      .throw (.logicError "partial prefill did not retain its execution owner")
        (admissionFails api s lane true)
    else
      match resolvePrefillStep api s lane unit with
      | .throw e s => .throw e (admissionFails api s lane true)
      | .ok s => .ok s

/-- The `try` block of `admit_planned_request`: the request occupies its
slot, the request memory is activated when there is a suffix to prefill,
and the target starts. -/
def startAdmitted (s : State π Prompt Base Plan)
    (request : Request Prompt Base Plan) (lane : Lane) (plan : Plan)
    (backfillClass : BackfillClass) (backfillEpoch : Nat)
    (unit : PrefillUnit Dev) : Outcome (State π Prompt Base Plan) :=
  let summary := api.planSummary plan
  let s := (s.setSlot lane
    (some (request.admitted summary backfillClass backfillEpoch))
    ).invalidateLanePlans lane
  if summary.reusablePromptTokens < summary.promptTokens then
    match activateRegion c summary with
    | .error e => .throw e (admissionFails api s lane false)
    | .ok transient =>
      startTarget api { s with prefillLane := some lane } request.prompt
        lane plan transient unit
  else startTarget api s request.prompt lane plan .none unit

/-- `admit_planned_request`. -/
def admitPlannedRequest (s : State π Prompt Base Plan)
    (request : Request Prompt Base Plan) (choice : LaneChoice)
    (backfillClass : BackfillClass) (backfillEpoch : Nat)
    (seen : Observations) (unit : PrefillUnit Dev) :
    Outcome (State π Prompt Base Plan) :=
  if seen.expiredLate request.id then .ok (s.removePending request.id)
  else if seen.cancelledLate request.id then
    .ok (s.removePending request.id)
  else
    match request.lanePlans choice.lane with
    | none =>
      .throw (.logicError "selected admission lane has no request plan") s
    | some plan =>
      let s :=
        if choice.evictRetained
        then evictUntilAdmissible api choice.lane plan c.lanes s else s
      if choice.evictRetained
          && !api.canAdmitLane s.program choice.lane plan then
        .throw (.logicError "retained eviction did not make admission feasible") s
      else
        (payTemporal (s.erasePending request.id) (api.planSummary plan)
          backfillClass backfillEpoch).andThen fun s =>
            startAdmitted api c (s.clearProtectionIfHead request.id)
              request choice.lane plan backfillClass backfillEpoch unit

-- ============ try_admit_one

/-- How a backfill candidate with plan summary `summary` would enter, by
the rules at the end of `try_admit_one`. -/
def backfillClassOf (p : AdmissionProtection)
    (active : List ActiveAdmissionSnapshot) (frontierDistance : Nat)
    (summary : RequestPlanSummary) : BackfillClass :=
  if persistentBackfillIsSafe p active summary.admission c.capacity then
    .persistent
  else if summary.serviceWorkQuanta ≤ frontierDistance
      ∧ summary.serviceWorkQuanta ≤ p.temporalCredit then .temporal
  else .none

/-- The candidate loop of `try_admit_one`. Candidates that are gone, have
no plan or can never fit leave the queue; the first that fits a lane and
may be backfilled is admitted. -/
def backfillFrom (p : AdmissionProtection)
    (active : List ActiveAdmissionSnapshot) (frontierDistance : Nat)
    (seen : Observations) (unit : PrefillUnit Dev) :
    List (Request Prompt Base Plan) → State π Prompt Base Plan →
      Outcome (State π Prompt Base Plan)
  | [], s => .ok s
  | candidate :: rest, s =>
    if seen.cancelled candidate.id || seen.expired candidate.id then
      backfillFrom p active frontierDistance seen unit rest
        (s.removePending candidate.id)
    else
      match ensureBasePlan api s.program candidate with
      | .error _ =>
        backfillFrom p active frontierDistance seen unit rest
          (s.removePending candidate.id)
      | .ok (planned, base) =>
        let s := s.updatePending planned
        if !admissionResourcesFit (api.baseSummary base).admission
            c.capacity then
          backfillFrom p active frontierDistance seen unit rest
            (s.removePending candidate.id)
        else
          match findAdmissionLane api c s planned base with
          | .error _ =>
            backfillFrom p active frontierDistance seen unit rest
              (s.removePending candidate.id)
          | .ok (placed, none) =>
            backfillFrom p active frontierDistance seen unit rest
              (s.updatePending placed)
          | .ok (placed, some choice) =>
            let s := s.updatePending placed
            let cls := (placed.lanePlans choice.lane).elim
              BackfillClass.none fun plan =>
                backfillClassOf c p active frontierDistance (api.planSummary plan)
            if cls = .none then
              backfillFrom p active frontierDistance seen unit rest s
            else
              admitPlannedRequest api c s placed choice cls p.epochId seen unit

/-- `protection_` is made once per blocked head. -/
def ensureProtection (s : State π Prompt Base Plan) (headId : Nat)
    (headResources : AdmissionResources)
    (active : List ActiveAdmissionSnapshot) :
    Outcome (State π Prompt Base Plan) :=
  if s.protection.isSome then .ok s
  else
    let s' := { s with nextProtectionEpoch := s.nextProtectionEpoch + 1 }
    match makeAdmissionProtection s.nextProtectionEpoch headId headResources
        active c.capacity with
    | .error e => .throw e s'
    | .ok p =>
      .ok { s' with
        protection := some p
        frozenCredit := p.temporalCredit
        temporalWork := 0 }

/-- Under a protection: drain when the head only waits for temporal
backfills, else look for a backfill. -/
def drainOrBackfill (s : State π Prompt Base Plan)
    (active : List ActiveAdmissionSnapshot)
    (queued : List (Request Prompt Base Plan)) (seen : Observations)
    (unit : PrefillUnit Dev) : Outcome (State π Prompt Base Plan) :=
  match s.protection with
  | none => .ok s
  | some p =>
    let p :=
      if protectedHeadSafeWithoutTemporal p active c.capacity
      then { p with phase := .drain } else p
    let s := { s with protection := some p }
    if p.phase = .drain then .ok s
    else
      backfillFrom api c p active (protectionFrontierDistance p active)
        seen unit queued s

/-- The part of a pass after the head found no lane. -/
def protectHead (s : State π Prompt Base Plan) (headId : Nat)
    (headResources : AdmissionResources)
    (queued : List (Request Prompt Base Plan)) (seen : Observations)
    (unit : PrefillUnit Dev) : Outcome (State π Prompt Base Plan) :=
  match s.activeAdmissionSet c with
  | .error e => .throw e s
  | .ok active =>
    if active = [] then
      .throw (.logicError
        "exclusive-feasible request cannot enter an idle Engine") s
    else
      (ensureProtection c s headId headResources active).andThen fun s =>
        drainOrBackfill api c s active queued seen unit

/-- One pass of the loop of `try_admit_one`. -/
def tryAdmitOne (s : State π Prompt Base Plan) (seen : Observations)
    (unit : PrefillUnit Dev) : Outcome (State π Prompt Base Plan) :=
  match s.pending with
  | [] => .ok { s with protection := none }
  | head :: queued =>
    let s :=
      if s.protection.any fun p => p.headRequestId != head.id
      then { s with protection := none } else s
    if seen.cancelled head.id || seen.expired head.id then
      .ok (s.removePending head.id)
    else
      match ensureBasePlan api s.program head with
      | .error _ => .ok (s.removePending head.id)
      | .ok (planned, base) =>
        let s := s.updatePending planned
        let headResources := (api.baseSummary base).admission
        if !admissionResourcesFit headResources c.capacity then
          .ok (s.removePending head.id)
        else
          match findAdmissionLane api c s planned base with
          | .error _ => .ok (s.removePending head.id)
          | .ok (placed, some choice) =>
            admitPlannedRequest api c (s.updatePending placed) placed
              choice .none 0 seen unit
          | .ok (placed, none) =>
            protectHead api c (s.updatePending placed) head.id
              headResources queued seen unit

-- ============ the other units

/-- `expire_pending_requests`: the requests in `gone` leave the queue. -/
def expirePendingRequests (s : State π Prompt Base Plan)
    (gone : Nat → Bool) : State π Prompt Base Plan :=
  { s with
    pending := s.pending.filter fun r => !gone r.id
    protection :=
      if s.protection.any fun p =>
          s.pending.any fun r => gone r.id && r.id == p.headRequestId
      then none else s.protection }

/-- The loop body of `cancel_active_requests`. -/
def cancelLane (cancelled : Lane → Bool) (s : State π Prompt Base Plan)
    (lane : Lane) : State π Prompt Base Plan :=
  if (s.slots lane).isSome && cancelled lane then
    ({ s with program := api.abortLane s.program lane }
      ).releasePrefill lane |>.removeCompletedSlot lane
  else s

/-- `cancel_active_requests`. -/
def cancelActiveRequests (s : State π Prompt Base Plan)
    (cancelled : Lane → Bool) : State π Prompt Base Plan :=
  c.lanes.foldl (cancelLane api cancelled) s

/-- `run_prefill_step`. -/
def runPrefillStep (s : State π Prompt Base Plan) (unit : PrefillUnit Dev) :
    Outcome (State π Prompt Base Plan) :=
  match s.prefillLane with
  | none => .throw (.logicError "no request owns staged prefill") s
  | some lane =>
    if (s.slots lane).all fun request => request.decodeReady then
      .throw (.logicError "staged prefill lane has invalid request state") s
    else
      match api.advancePrefillLane s.program lane unit.device with
      | .throw e p => .throw e { s with program := p }
      | .ok p => resolvePrefillStep api { s with program := p } lane unit

/-- `build_round_membership`: the decode-ready lanes with their budgets. -/
def buildRoundMembership (s : State π Prompt Base Plan) : List (Lane × Nat) :=
  c.lanes.filterMap fun lane =>
    (s.slots lane).bind fun request =>
      if request.decodeReady then some (lane, request.budgetRemaining)
      else none

/-- The decisions loop of `run_decode_round`: how each row of the round is
to be resolved. -/
def decideRows (p : π) (unit : DecodeUnit Dev) :
    List (Lane × Nat) → Except Exception (List RowResolution)
  | [] => .ok []
  | (lane, budget) :: rest =>
    if api.rowCount p lane = 0 then
      .error (.logicError "decode batch returned an invalid licensed row extent")
    else if unit.cancelled lane then
      (decideRows p unit rest).map (⟨lane, 0, true, true⟩ :: ·)
    else
      match unit.decision lane budget with
      | .error e => .error e
      | .ok d =>
        if d.acceptedTokens = 0 ∨ api.rowCount p lane < d.acceptedTokens
            ∨ (d.finished = false
              ∧ d.acceptedTokens ≠ api.rowCount p lane) then
          .error (.logicError "output policy returned an invalid licensed prefix")
        else
          (decideRows p unit rest).map
            (⟨lane, d.acceptedTokens, d.finished, false⟩ :: ·)

/-- The last loop of `run_decode_round`: budgets and service work are
charged, finished requests leave their slots. -/
def commitRow (row : RowResolution) (s : State π Prompt Base Plan) :
    Outcome (State π Prompt Base Plan) :=
  if row.cancelled then .ok (s.removeCompletedSlot row.lane)
  else
    match s.slots row.lane with
    | none => .ok s
    | some request =>
      (consumeServiceWork
        (s.setSlot row.lane (some { request with
          budgetRemaining := request.budgetRemaining - row.acceptedTokens }))
        row.lane row.acceptedTokens).andThen fun s =>
          if row.terminal then .ok (s.removeCompletedSlot row.lane)
          else .ok s

/-- `run_decode_round`. -/
def runDecodeRound (s : State π Prompt Base Plan) (unit : DecodeUnit Dev) :
    Outcome (State π Prompt Base Plan) :=
  let membership := buildRoundMembership c s
  match api.decodeBatch s.program membership unit.device with
  | .throw e p => .throw e { s with program := p }
  | .ok p =>
    match decideRows api p unit membership with
    | .error e => .throw e { s with program := p }
    | .ok rows =>
      match api.resolvePendingBatch p rows with
      | .throw e p => .throw e { s with program := p }
      | .ok p => Outcome.forEach commitRow rows { s with program := p }

/-- `fail_all`. -/
def failAll (s : State π Prompt Base Plan) : State π Prompt Base Plan :=
  { s with
    program := c.lanes.foldl
      (fun p lane => if (s.slots lane).isSome then api.abortLane p lane else p)
      s.program
    pending := []
    slots := fun _ => none
    prefillLane := none
    protection := none
    failed := true }

/-- The budgets a decode round commits cover what the decisions accept:
otherwise `GenerationBudget::commit` aborts the process. -/
def withinBudgets (s : State π Prompt Base Plan) (unit : DecodeUnit Dev) : Bool :=
  (buildRoundMembership c s).all fun row =>
    unit.cancelled row.1 || match unit.decision row.1 row.2 with
      | .error _ => true
      | .ok d => decide (d.acceptedTokens ≤ row.2)

/-- The units of the worker loop, and the clients' submissions. -/
inductive Action (Prompt Dev : Type) where
  | submit (prompt : Prompt)
  | expire (gone : Nat → Bool)
  | cancel (cancelled : Lane → Bool)
  | tryAdmit (seen : Observations) (unit : PrefillUnit Dev)
  | prefill (unit : PrefillUnit Dev)
  | decode (unit : DecodeUnit Dev)

/-- The state a unit leaves behind: what it returned, or `fail_all` after
what it threw. -/
def settle (o : Outcome (State π Prompt Base Plan)) : State π Prompt Base Plan :=
  match o with
  | .ok s => s
  | .throw _ s => failAll api c s

/-- One unit. Admission waits for the staged prefill to end, a prefill
step needs one, and a decode round needs members. -/
def step (s : State π Prompt Base Plan) :
    Action Prompt Dev → Option (State π Prompt Base Plan)
  | .submit prompt =>
    if s.failed then none
    else
      some { s with
        pending := s.pending ++ [.submitted s.nextRequestId prompt]
        nextRequestId := s.nextRequestId + 1 }
  | .expire gone =>
    if s.failed then none else some (expirePendingRequests s gone)
  | .cancel cancelled =>
    if s.failed then none else some (cancelActiveRequests api c s cancelled)
  | .tryAdmit seen unit =>
    if s.failed || s.prefillLane.isSome then none
    else some (settle api c (tryAdmitOne api c s seen unit))
  | .prefill unit =>
    if s.failed || s.prefillLane.isNone then none
    else some (settle api c (runPrefillStep api s unit))
  | .decode unit =>
    if s.failed || (buildRoundMembership c s).isEmpty
        || !withinBudgets c s unit then none
    else some (settle api c (runDecodeRound api c s unit))

/-- The executor its constructor leaves, over a freshly built Program. -/
def State.init (p : π) : State π Prompt Base Plan where
  program := p
  pending := []
  slots := fun _ => none
  prefillLane := none
  lanePlanVersions := fun _ => 0
  protection := none
  nextProtectionEpoch := 1
  nextRequestId := 1
  failed := false
  frozenCredit := 0
  temporalWork := 0

end

end Ginfer.Admission
