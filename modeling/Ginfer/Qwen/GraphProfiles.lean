/-
The execution profiles of CUDA graphs
(targets/qwen3_6_27b/impl/variant.cpp).

A graph is captured for an interval of frontiers. The intervals end where
a route of the captured kernels changes: at fixed frontiers, and at fixed
numbers of visible keys, which a round of a draft window reaches so many
frontiers earlier. Values are `std::uint32_t`, and sums wrap where the
code does not widen them.
-/
import Ginfer.Lib.Words

namespace Ginfer.Qwen

open Ginfer.Lib

/-- `GraphExecutionProfile`. -/
structure GraphExecutionProfile where
  min : Nat
  max : Nat
  topologyClass : Nat
  deriving DecidableEq

-- ============ the intervals

/-- The loop of `graph_profiles_through`, from a begin on. -/
def profilesFrom (maxFrontier : Nat) : Nat → List Nat → List GraphExecutionProfile
  | start, [] =>
    if start ≤ maxFrontier then [⟨start, maxFrontier, 0⟩] else []
  | start, preferredEnd :: rest =>
    if maxFrontier < start then []
    else
      let stop := Nat.min preferredEnd maxFrontier
      ⟨start, stop, 0⟩ ::
        if stop = maxFrontier then []
        else profilesFrom maxFrontier (stop + 1) rest

/-- `graph_profiles_through`. -/
def graphProfilesThrough (maxFrontier : Nat) (preferredEnds : List Nat) :
    List GraphExecutionProfile :=
  profilesFrom maxFrontier 0 preferredEnds

/-- `std::unique`. -/
def unique : List Nat → List Nat
  | [] => []
  | [a] => [a]
  | a :: b :: rest =>
    if a = b then unique (b :: rest) else a :: unique (b :: rest)

/-- `std::sort`, then `std::unique`. -/
def sortedEnds (ends : List Nat) : List Nat :=
  unique (ends.insertionSort (· ≤ ·))

/-- `add_shifted`, `add_target_boundary`: the frontier from which a round
sees so many keys. -/
def addShifted (offset visibleEnd : Nat) : List Nat :=
  if offset ≤ visibleEnd then [visibleEnd - offset] else []

-- ============ the profiles

/-- `Variant::ordinary_graph_profiles`. -/
def ordinaryGraphProfiles (capacity : Nat) : List GraphExecutionProfile :=
  graphProfilesThrough (u32Sub capacity 1)
    [127, 511, 2047, 4095, 8197, 16389, 32767]

/-- The numbers of visible keys at which the text attention changes its
launch. -/
def visibleEnds : List Nat := [128, 512, 2048, 4096, 8198, 16390, 32768]

/-- The ends of `Variant::mtp_graph_profiles`. -/
def mtpEnds (draftWindow : Nat) : List Nat :=
  visibleEnds.flatMap (addShifted (2 * draftWindow % 2 ^ 32))
    ++ if draftWindow = 3 then addShifted (draftWindow + 1) 1029
    else if draftWindow = 4 then
      [128, 512, 1029].flatMap (addShifted (draftWindow + 1))
    else if draftWindow = 5 then
      [128, 160, 2054, 8198].flatMap (addShifted (draftWindow + 1))
    else []

/-- `Variant::mtp_graph_profiles`. -/
def mtpGraphProfiles (capacity draftWindow : Nat) : List GraphExecutionProfile :=
  if draftWindow = 0 ∨ capacity = 0 then []
  else graphProfilesThrough (u32Sub capacity 1) (sortedEnds (mtpEnds draftWindow))

/-- `kMaximumDFlashDraftTokens`. -/
def maximumDFlashDraftTokens : Nat := 7

/-- The ends of `dflash_base_profiles`. -/
def dflashEnds (draftWindow : Nat) : List Nat :=
  let block := u32Add draftWindow 1
  [96, 127, 511, 1023, 2047, 4095, 8191, 16383, 32767, 65536, 131072, 196608]
    ++ visibleEnds.flatMap (addShifted block)
    ++ if 6 ≤ draftWindow ∧ draftWindow ≤ maximumDFlashDraftTokens then
      addShifted block (if draftWindow ≤ 11 then 512 else 1024)
    else []

/-- `dflash_base_profiles`. -/
def dflashBaseProfiles (capacity draftWindow : Nat) :
    List GraphExecutionProfile :=
  if draftWindow = 0 ∨ capacity = 0 then []
  else graphProfilesThrough (u32Sub capacity 1)
    (sortedEnds (dflashEnds draftWindow))

/-- `dflash_target_uses_chunked_small_t`. -/
def dflashTargetUsesChunkedSmallT
    (draftWindow batchSize maxVisibleKeys : Nat) : Bool :=
  let tokens := u32Add draftWindow 1
  if tokens ≤ 6 then false
  else if 1 < batchSize then true
  else
    let promptVisibleLimit := if tokens ≤ 12 then 512 else 1024
    promptVisibleLimit < maxVisibleKeys

/-- The visible keys of the target at a frontier. -/
def targetMax (capacity draftWindow frontier : Nat) : Nat :=
  Nat.min capacity (frontier + draftWindow + 1)

/-- The topology class of a frontier. -/
def dflashTopologyClass (capacity draftWindow batchSize frontier : Nat) :
    Nat :=
  let splitSwa := 96 < frontier
  let chunkedTarget := dflashTargetUsesChunkedSmallT draftWindow batchSize
    (targetMax capacity draftWindow frontier)
  (if chunkedTarget then 2 else 0) ||| (if splitSwa then 1 else 0)

/-- `Variant::dflash_graph_profiles`. -/
def dflashGraphProfiles (capacity draftWindow batchSize : Nat) :
    List GraphExecutionProfile :=
  (dflashBaseProfiles capacity draftWindow).map fun profile =>
    { profile with
      topologyClass :=
        dflashTopologyClass capacity draftWindow batchSize profile.max }

end Ginfer.Qwen
