/-
The resolution of the KV capacity (runtime/engine/kv_capacity.cpp).

A target says what it needs as a curve: so many bytes for the least number
of page groups, and so many for each one more. The policy either names a
number of tokens, or asks for as many page groups as fit beside a
headroom.

Counts are `std::uint32_t` and bytes `std::size_t`; the fields say so.
The one sum the code does not check is `sizeAdd`.
-/
import Ginfer.Lib.Outcome
import Ginfer.Lib.Words

namespace Ginfer.KvCapacity

open Ginfer.Lib

-- ============ the inputs

/-- `KvCapacityMode`. -/
inductive KvCapacityMode where
  | explicit
  | automatic

/-- `KvCapacityPolicy`. -/
structure KvCapacityPolicy where
  mode : KvCapacityMode
  explicitTokens : Nat
  automaticHeadroomBytes : Nat
  explicit_tokens_lt : explicitTokens < 2 ^ 32
  automatic_headroom_bytes_lt : automaticHeadroomBytes < 2 ^ 64

/-- `SequenceCapacityCurve`. -/
structure SequenceCapacityCurve where
  mainPageTokens : Nat
  minimumMainPageGroups : Nat
  maximumMainPageGroups : Nat
  minimumDeviceReservationBytes : Nat
  bytesPerAdditionalMainPageGroup : Nat
  main_page_tokens_lt : mainPageTokens < 2 ^ 32
  minimum_main_page_groups_lt : minimumMainPageGroups < 2 ^ 32
  maximum_main_page_groups_lt : maximumMainPageGroups < 2 ^ 32
  minimum_device_reservation_bytes_lt : minimumDeviceReservationBytes < 2 ^ 64
  bytes_per_additional_main_page_group_lt :
    bytesPerAdditionalMainPageGroup < 2 ^ 64

/-- `KvCapacityResolution`, up to what the startup measures later. -/
structure KvCapacityResolution where
  mode : KvCapacityMode
  mainPageGroups : Nat
  maximumMainPageGroups : Nat
  resolvedTokens : Nat
  minimumRuntimeReservationBytes : Nat
  bytesPerAdditionalMainPageGroup : Nat
  runtimeReservationBytes : Nat
  availableAfterWeightsBytes : Nat
  automaticHeadroomBytes : Nat
  plannedSlackBytes : Nat

-- ============ the arithmetic

/-- `checked_add`. -/
def checkedAdd (a b : Nat) (label : String) : Except Exception Nat :=
  if 2 ^ 64 - 1 - a < b then .error (.overflowError label) else .ok (a + b)

/-- `checked_mul`. -/
def checkedMul (a b : Nat) (label : String) : Except Exception Nat :=
  if b ≠ 0 ∧ (2 ^ 64 - 1) / b < a then .error (.overflowError label)
  else .ok (a * b)

/-- `validate_curve`. -/
def validateCurve (curve : SequenceCapacityCurve) : Except Exception Unit :=
  if curve.mainPageTokens = 0 ∨ curve.minimumMainPageGroups = 0
      ∨ curve.maximumMainPageGroups < curve.minimumMainPageGroups
      ∨ curve.minimumDeviceReservationBytes = 0 then
    .error (.invalidArgument "sequence capacity curve is invalid")
  else if curve.minimumMainPageGroups < curve.maximumMainPageGroups
      ∧ curve.bytesPerAdditionalMainPageGroup = 0 then
    .error (.invalidArgument
      "expandable sequence capacity curve has zero byte stride")
  else .ok ()

/-- `explicit_page_groups`. -/
def explicitPageGroups (policy : KvCapacityPolicy)
    (curve : SequenceCapacityCurve) : Except Exception Nat :=
  if policy.explicitTokens = 0 then
    .error (.invalidArgument "explicit KV capacity must be positive")
  else
    let pages := 1 + (policy.explicitTokens - 1) / curve.mainPageTokens
    if 2 ^ 32 - 1 < pages then
      .error (.overflowError "explicit KV page count exceeds uint32")
    else .ok pages

namespace SequenceCapacityCurve

/-- The check both members begin with. -/
def checkPages (curve : SequenceCapacityCurve) (mainPageGroups : Nat) :
    Except Exception Unit :=
  match validateCurve curve with
  | .error e => .error e
  | .ok _ =>
    if mainPageGroups < curve.minimumMainPageGroups
        ∨ curve.maximumMainPageGroups < mainPageGroups then
      .error (.invalidArgument
        "Main KV page count is outside the target capacity curve")
    else .ok ()

/-- `reservation_bytes`. -/
def reservationBytes (curve : SequenceCapacityCurve)
    (mainPageGroups : Nat) : Except Exception Nat := do
  curve.checkPages mainPageGroups
  let increment ← checkedMul (mainPageGroups - curve.minimumMainPageGroups)
    curve.bytesPerAdditionalMainPageGroup
    "sequence capacity increment overflows size_t"
  checkedAdd curve.minimumDeviceReservationBytes increment
    "sequence capacity reservation overflows size_t"

/-- `resolved_tokens`. -/
def resolvedTokens (curve : SequenceCapacityCurve) (mainPageGroups : Nat) :
    Except Exception Nat := do
  curve.checkPages mainPageGroups
  if 2 ^ 32 - 1 < mainPageGroups * curve.mainPageTokens then
    throw (.overflowError "resolved KV token capacity exceeds uint32")
  return mainPageGroups * curve.mainPageTokens

end SequenceCapacityCurve

-- ============ the resolution

/-- `candidate`: the page groups a budget has room for. -/
def candidatePages (curve : SequenceCapacityCurve) (budget : Nat) : Nat :=
  sizeAdd curve.minimumMainPageGroups
    ((budget - curve.minimumDeviceReservationBytes)
      / curve.bytesPerAdditionalMainPageGroup)

/-- The switch of `resolve_kv_capacity`: the page groups and the budget. -/
def selectPages (policy : KvCapacityPolicy)
    (curve : SequenceCapacityCurve) (available : Nat) :
    Except Exception (Nat × Nat) :=
  match policy.mode with
  | .explicit =>
    if policy.automaticHeadroomBytes ≠ 0 then
      .error (.invalidArgument
        "explicit KV capacity must not carry automatic headroom")
    else
      (explicitPageGroups policy curve).map fun pages =>
        (pages, available)
  | .automatic =>
    if available < policy.automaticHeadroomBytes then
      .error (.invalidArgument
        ("automatic KV headroom requires "
          ++ toString policy.automaticHeadroomBytes ++ " bytes, but only "
          ++ toString available
          ++ " bytes are available after weights"))
    else
      let budget := available - policy.automaticHeadroomBytes
      if budget < curve.minimumDeviceReservationBytes then
        .error (.invalidArgument
          ("minimum Engine runtime reservation requires "
            ++ toString curve.minimumDeviceReservationBytes
            ++ " bytes in addition to "
            ++ toString policy.automaticHeadroomBytes
            ++ " bytes of automatic headroom, but only "
            ++ toString available
            ++ " bytes are available after weights"))
      else if curve.minimumMainPageGroups
          < curve.maximumMainPageGroups then
        .ok (min (candidatePages curve budget)
          curve.maximumMainPageGroups, budget)
      else .ok (curve.minimumMainPageGroups, budget)

/-- `resolve_kv_capacity`. -/
def resolveKvCapacity (policy : KvCapacityPolicy)
    (curve : SequenceCapacityCurve) (available : Nat) :
    Except Exception KvCapacityResolution := do
  validateCurve curve
  let (pages, budget) ← selectPages policy curve available
  let reservation ← curve.reservationBytes pages
  if budget < reservation then
    throw (.invalidArgument
      ("requested Engine runtime reservation requires "
        ++ toString reservation ++ " bytes, but only " ++ toString budget
        ++ " bytes are available for runtime capacity"))
  let tokens ← curve.resolvedTokens pages
  return {
    mode := policy.mode
    mainPageGroups := pages
    maximumMainPageGroups := curve.maximumMainPageGroups
    resolvedTokens := tokens
    minimumRuntimeReservationBytes := curve.minimumDeviceReservationBytes
    bytesPerAdditionalMainPageGroup := curve.bytesPerAdditionalMainPageGroup
    runtimeReservationBytes := reservation
    availableAfterWeightsBytes := available
    automaticHeadroomBytes := policy.automaticHeadroomBytes
    plannedSlackBytes := available - reservation }

end Ginfer.KvCapacity
