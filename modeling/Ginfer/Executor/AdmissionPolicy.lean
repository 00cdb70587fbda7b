/-
The admission policy (runtime/engine/admission_policy.{h,cpp}).

# What a protection is

When the request at the head of the queue does not fit beside the active
ones, the executor freezes the active set and protects the head: among
the frozen incumbents the policy picks DONORS — the shortest prefix, in
the order of projected completion, whose release makes the head fit —
and a TEMPORAL CREDIT, the remaining work of the last donor. Until the
head is admitted, later requests may only be backfilled if

- `persistent_backfill_is_safe`: they fit beside the head, the incumbents
  that are not donors and the persistent backfills of this epoch; or
- their whole service work fits both the live distance to the frontier
  and what is left of the credit.

# Representation

`AdmissionResources` has `std::uint32_t` components and `ResourceTotals`
sums at most `kMaximumConcurrency + 2` of them in `std::uint64_t`, which
cannot wrap; both are `Nat` here. The id arrays with their counts are
lists.
-/
import Ginfer.Lib.Outcome

namespace Ginfer.Admission

open Ginfer.Lib

/-- `kMaximumConcurrency`. -/
def maximumConcurrency : Nat := 8

/-- `AdmissionResources`. -/
structure AdmissionResources where
  activeLanes : Nat
  mainKVPages : Nat
  backendKVPages : Nat
  deriving DecidableEq

/-- `ResourceTotals`. -/
structure ResourceTotals where
  activeLanes : Nat
  mainKVPages : Nat
  backendKVPages : Nat

namespace ResourceTotals

/-- A default-constructed total. -/
def zero : ResourceTotals := ⟨0, 0, 0⟩

/-- `add`. -/
def add (total : ResourceTotals) (resources : AdmissionResources) :
    ResourceTotals where
  activeLanes := total.activeLanes + resources.activeLanes
  mainKVPages := total.mainKVPages + resources.mainKVPages
  backendKVPages := total.backendKVPages + resources.backendKVPages

/-- `subtract`. -/
def subtract (total : ResourceTotals) (resources : AdmissionResources) :
    Except Exception ResourceTotals :=
  if total.activeLanes < resources.activeLanes
      ∨ total.mainKVPages < resources.mainKVPages
      ∨ total.backendKVPages < resources.backendKVPages then
    .error (.logicError "admission resource subtraction underflow")
  else
    .ok
      { activeLanes := total.activeLanes - resources.activeLanes
        mainKVPages := total.mainKVPages - resources.mainKVPages
        backendKVPages := total.backendKVPages - resources.backendKVPages }

/-- `fits`. -/
def fits (used : ResourceTotals) (capacity : AdmissionResources) : Bool :=
  decide (used.activeLanes ≤ capacity.activeLanes)
    && decide (used.mainKVPages ≤ capacity.mainKVPages)
    && decide (used.backendKVPages ≤ capacity.backendKVPages)

end ResourceTotals

/-- `BackfillClass`. -/
inductive BackfillClass where
  | none
  | persistent
  | temporal
  deriving DecidableEq

/-- `ActiveAdmissionSnapshot`. -/
structure ActiveAdmissionSnapshot where
  requestId : Nat
  resources : AdmissionResources
  remainingWorkQuanta : Nat
  backfillEpoch : Nat
  backfillClass : BackfillClass

/-- `ProtectionPhase`. -/
inductive ProtectionPhase where
  | opened
  | drain
  deriving DecidableEq

/-- `AdmissionProtection`. -/
structure AdmissionProtection where
  epochId : Nat
  headRequestId : Nat
  headResources : AdmissionResources
  incumbentIds : List Nat
  donorIds : List Nat
  temporalCredit : Nat
  phase : ProtectionPhase
  deriving DecidableEq

/-- `is_incumbent`. -/
def isIncumbent (protection : AdmissionProtection) (id : Nat) : Bool :=
  protection.incumbentIds.contains id

/-- `is_donor`. -/
def isDonor (protection : AdmissionProtection) (id : Nat) : Bool :=
  protection.donorIds.contains id

/-- `admission_resources_fit`. -/
def admissionResourcesFit (used capacity : AdmissionResources) : Bool :=
  (ResourceTotals.zero.add used).fits capacity

/-- The loops that add up the resources of the requests meeting `counts`. -/
def addWhere (counts : ActiveAdmissionSnapshot → Bool)
    (total : ResourceTotals) (active : List ActiveAdmissionSnapshot) :
    ResourceTotals :=
  active.foldl
    (fun t request => if counts request then t.add request.resources else t)
    total

/-- The comparison of the donor order: remaining work, then id. -/
def donorOrder (lhs rhs : ActiveAdmissionSnapshot) : Bool :=
  if lhs.remainingWorkQuanta ≠ rhs.remainingWorkQuanta then
    decide (lhs.remainingWorkQuanta ≤ rhs.remainingWorkQuanta)
  else decide (lhs.requestId ≤ rhs.requestId)

/-- The donor loop: release the incumbents of `order` one by one until the
survivors and the head fit. Returns the donors and the credit. -/
def selectDonors (capacity : AdmissionResources) :
    List ActiveAdmissionSnapshot → ResourceTotals → List Nat →
      Except Exception (List Nat × Nat)
  | [], _, _ =>
    .error (.logicError
      "exclusive-feasible head has no releasing incumbent frontier")
  | donor :: order, survivors, donorIds =>
    match survivors.subtract donor.resources with
    | .error e => .error e
    | .ok survivors' =>
      if survivors'.fits capacity then
        .ok (donorIds ++ [donor.requestId], donor.remainingWorkQuanta)
      else
        selectDonors capacity order survivors' (donorIds ++ [donor.requestId])

/-- `make_admission_protection`. -/
def makeAdmissionProtection (epochId headRequestId : Nat)
    (headResources : AdmissionResources)
    (active : List ActiveAdmissionSnapshot)
    (capacity : AdmissionResources) :
    Except Exception AdmissionProtection :=
  if epochId = 0 ∨ headRequestId = 0 ∨ active = []
      ∨ maximumConcurrency < active.length
      ∨ headResources.activeLanes = 0
      ∨ admissionResourcesFit headResources capacity = false then
    .error (.invalidArgument "invalid protected-admission frontier")
  else if active.any fun request =>
      request.requestId == 0 || request.remainingWorkQuanta == 0 then
    .error (.invalidArgument "protected incumbent has invalid progress state")
  else
    let survivors :=
      (addWhere (fun _ => true) .zero active).add headResources
    if survivors.fits capacity then
      .error (.invalidArgument
        "protected head is not blocked by frozen incumbents")
    else
      match selectDonors capacity
          (active.insertionSort fun lhs rhs => donorOrder lhs rhs = true)
          survivors [] with
      | .error e => .error e
      | .ok (donorIds, temporalCredit) =>
        .ok
          { epochId := epochId
            headRequestId := headRequestId
            headResources := headResources
            incumbentIds := active.map (·.requestId)
            donorIds := donorIds
            temporalCredit := temporalCredit
            phase := .opened }

/-- The requests `persistent_backfill_is_safe` counts: the incumbents that
are not donors, and the persistent backfills of this epoch. -/
def countsAtFrontier (protection : AdmissionProtection)
    (request : ActiveAdmissionSnapshot) : Bool :=
  if isIncumbent protection request.requestId then
    !isDonor protection request.requestId
  else
    request.backfillEpoch == protection.epochId
      && request.backfillClass == .persistent

/-- `persistent_backfill_is_safe`. -/
def persistentBackfillIsSafe (protection : AdmissionProtection)
    (active : List ActiveAdmissionSnapshot)
    (candidate capacity : AdmissionResources) : Bool :=
  ((addWhere (countsAtFrontier protection)
      (ResourceTotals.zero.add protection.headResources) active).add
    candidate).fits capacity

/-- `protection_frontier_distance`. -/
def protectionFrontierDistance (protection : AdmissionProtection)
    (active : List ActiveAdmissionSnapshot) : Nat :=
  active.foldl
    (fun distance request =>
      if isDonor protection request.requestId
      then max distance request.remainingWorkQuanta else distance)
    0

/-- The requests `protected_head_safe_without_temporal` counts: all but the
temporal backfills of this epoch. -/
def countsWithoutTemporal (protection : AdmissionProtection)
    (request : ActiveAdmissionSnapshot) : Bool :=
  isIncumbent protection request.requestId
    || request.backfillEpoch != protection.epochId
    || request.backfillClass != .temporal

/-- `protected_head_safe_without_temporal`. -/
def protectedHeadSafeWithoutTemporal (protection : AdmissionProtection)
    (active : List ActiveAdmissionSnapshot)
    (capacity : AdmissionResources) : Bool :=
  (addWhere (countsWithoutTemporal protection)
    (ResourceTotals.zero.add protection.headResources) active).fits capacity

end Ginfer.Admission
