/-
Split-KV decode attention: which splits run, and over which keys
(ops/kernel/gqa_attention_decode.cuh and its d128, i8 and bf16 kernels,
ops/launcher/gqa_attention_decode.cu, ops/occupancy.h).

A launch has a grid of splits over the visible keys of a row. The number
of splits launched is computed on the host for a whole execution
envelope; on the device each partial kernel works out from the actual
window how many of them are active and leaves the others alone, and the
reducer works out the same number to know which partial results to read.

The positions are those of one row of the batch: the first and the last
of its columns. Visible keys never exceed 262144, so no product below
leaves the 32-bit range.
-/
import Ginfer.Lib.Outcome

namespace Ginfer.Ops

open Ginfer.Lib

-- ============ profiles

/-- The registered head geometries. -/
inductive GqaGeometry where
  | gqa27
  | gqa35
  | gqaMuse
deriving DecidableEq

/-- `Geometry::DecodeSplitScale`. -/
def GqaGeometry.decodeSplitScale : GqaGeometry → Nat
  | .gqa27 => 1
  | .gqa35 => 2
  | .gqaMuse => 2

/-- `Geometry::HeadDim`. -/
def GqaGeometry.headDim : GqaGeometry → Nat
  | .gqa27 => 256
  | .gqa35 => 256
  | .gqaMuse => 128

/-- The KV cache formats. -/
inductive KVDType where
  | bf16
  | i8
deriving DecidableEq

/-- `DecodeSplitsMax`. -/
def decodeSplitsMax : Nat := 256

inductive SmArch where
  | ampere86
  | ada89
  | blackwell120

/-- The part of the occupancy policy that sizes decode attention. -/
structure OccupancyPolicy where
  smCount : Nat
  gqaDecodeSplitsBase : Nat

/-- `make_occupancy_policy`. Every architecture of the enumeration is
supported. -/
def makeOccupancyPolicy (_ : SmArch) (smCount : Int) :
    Except Exception OccupancyPolicy :=
  if smCount ≤ 0 then
    .error (.invalidArgument "make_occupancy_policy requires sm_count > 0")
  else .ok ⟨smCount.toNat, smCount.toNat / 2⟩

/-- `gqa_runtime_decode_splits`. -/
def gqaRuntimeDecodeSplits (o : OccupancyPolicy) (scale : Nat) : Nat :=
  min (o.gqaDecodeSplitsBase * scale) decodeSplitsMax

/-- `gqa_eight_k_split_max`. -/
def gqaEightKSplitMax (smCount scale : Nat) : Nat := smCount / 4 * scale

/-- `div_up`. -/
def divUp (x d : Nat) : Nat := x / d + (if x % d ≠ 0 then 1 else 0)

-- ============ the device's count

/-- `gqa_small_t_default_splits`. -/
def gqaSmallTDefaultSplits (g : GqaGeometry) (window : Nat) : Nat :=
  let target :=
    if window ≤ 4096 then 64 / g.decodeSplitScale
    else if window ≤ 8198 then 128 / g.decodeSplitScale
    else if window ≤ 16390 then 256 / g.decodeSplitScale
    else 480 / g.decodeSplitScale
  min (max (divUp window target) (4 * g.decodeSplitScale)) decodeSplitsMax

/-- `gqa_small_t_active_splits`, with the `eight_k_split_max` its caller
passes (zero by default). -/
def gqaSmallTActiveSplits (g : GqaGeometry) (int8 : Bool)
    (window launchCapacity tokens eightKSplitMax : Nat) : Nat :=
  if window = 0 then launchCapacity
  else
    let splits :=
      if int8 then
        if tokens = 5 ∧ 128 < window ∧ window ≤ 512 then
          divUp window (32 / g.decodeSplitScale)
        else if tokens = 6 ∧ 128 < window ∧ window ≤ 160 then
          divUp window (24 / g.decodeSplitScale)
        else if tokens = 6 ∧ 5000 < window ∧ window ≤ 8198 then
          min (max (divUp window (192 / g.decodeSplitScale))
            (4 * g.decodeSplitScale)) eightKSplitMax
        else gqaSmallTDefaultSplits g window
      else gqaSmallTDefaultSplits g window
    min splits launchCapacity

-- ============ the host's count

/-- `gqa_small_t_split_upper_bound`. -/
def gqaSmallTSplitUpperBound (g : GqaGeometry) (window decodeSplits : Nat) :
    Nat :=
  if window = 0 then decodeSplits
  else
    let includeTier := fun (limit target splits : Nat) =>
      let tier := min window limit
      if 0 < tier then max splits (divUp tier target) else splits
    let s := includeTier 4096 (64 / g.decodeSplitScale) (4 * g.decodeSplitScale)
    let s := if 4096 < window then
        includeTier 8198 (128 / g.decodeSplitScale) s else s
    let s := if 8198 < window then
        includeTier 16390 (256 / g.decodeSplitScale) s else s
    let s := if 16390 < window then
        includeTier window (480 / g.decodeSplitScale) s else s
    min s decodeSplits

/-- `gqa_small_t_split_count`. -/
def gqaSmallTSplitCount (g : GqaGeometry) (window tokens : Nat)
    (dtype : KVDType) (o : OccupancyPolicy) : Nat :=
  if dtype = .i8 ∧ tokens = 5 ∧ 128 < window ∧ window ≤ 512 then
    divUp window (32 / g.decodeSplitScale)
  else if dtype = .i8 ∧ tokens = 6 ∧ 128 < window ∧ window ≤ 160 then
    divUp window (24 / g.decodeSplitScale)
  else if dtype = .i8 ∧ tokens = 6 ∧ 5000 < window ∧ window ≤ 8198 then
    min (max (divUp window (192 / g.decodeSplitScale)) (4 * g.decodeSplitScale))
      (gqaEightKSplitMax o.smCount g.decodeSplitScale)
  else
    gqaSmallTSplitUpperBound g window
      (gqaRuntimeDecodeSplits o g.decodeSplitScale)

/-- The interval of windows a launch is built for. -/
structure GqaExecutionEnvelope where
  minVisibleKeys : Nat
  maxVisibleKeys : Nat

/-- `gqa_small_t_launch_capacity`: the largest count at the ends of the
envelope and at the segment ends inside it. -/
def gqaSmallTLaunchCapacity (g : GqaGeometry) (e : GqaExecutionEnvelope)
    (tokens : Nat) (dtype : KVDType) (o : OccupancyPolicy) : Nat :=
  let consider := fun (capacity window : Nat) =>
    if window < e.minVisibleKeys ∨ e.maxVisibleKeys < window then capacity
    else max capacity (gqaSmallTSplitCount g window tokens dtype o)
  [e.minVisibleKeys, e.maxVisibleKeys, 128, 160, 512, 4096, 5000, 8198,
    16390].foldl consider 0

-- ============ one split's keys

/-- `gqa_sliding_key_lo`. -/
def gqaSlidingKeyLo (qabs : Int) (windowSize : Int) : Nat :=
  if windowSize ≤ 0 then 0 else (qabs - windowSize + 1).toNat

/-- What a block of a partial kernel leaves for its split. -/
inductive SplitResult where
  /-- nothing is written -/
  | silent
  /-- the neutral element is written -/
  | neutral
  /-- the keys from `first` up to `last` are attended to -/
  | keys (first last : Nat)

/-- The split selection all partial kernels share, for their key block
`bc`, their count of active splits and the lowest visible key. -/
def splitSelection (bc active window lo split : Nat) : SplitResult :=
  if active ≤ split then .silent
  else
    let logicalTiles := divUp window bc
    let tileSplit := active ≤ logicalTiles
    let unitsPerSplit :=
      if tileSplit then divUp logicalTiles active else divUp window active
    let unit := if tileSplit then bc else 1
    let splitStartRaw := split * unitsPerSplit * unit
    let splitLimit := splitStartRaw + unitsPerSplit * unit
    let splitStart := max splitStartRaw lo
    let splitEnd := min splitLimit window
    if splitEnd ≤ splitStart then .neutral else .keys splitStart splitEnd

/-- The key block of `gqa_attention_decode_i8_tiled_kernel`, as
`launch_tc_partial_i8` instantiates it. -/
def i8KeyBlock (tokens implementationWindow : Nat) : Nat :=
  if tokens = 6 then
    if 128 < implementationWindow ∧ implementationWindow ≤ 160 then 32
    else if implementationWindow ≤ 2054 then 32
    else if implementationWindow ≤ 8198 then 64
    else 32
  else 32

/-- A small-T launch, as one row of the batch sees it. -/
structure GqaSmallTLaunch where
  geometry : GqaGeometry
  dtype : KVDType
  /-- the number of columns (`invocation.width`) -/
  tokens : Nat
  occupancy : OccupancyPolicy
  envelope : GqaExecutionEnvelope
  /-- the sliding window, for the geometry that has one -/
  windowSize : Int
  validTokens : Nat
  firstPos : Int
  lastPos : Int

namespace GqaSmallTLaunch

/-- The splits launched (`gridDim.y`). -/
def splits (l : GqaSmallTLaunch) : Nat :=
  gqaSmallTLaunchCapacity l.geometry l.envelope l.tokens l.dtype l.occupancy

/-- The keys up to the last position. -/
def window (l : GqaSmallTLaunch) : Nat := (l.lastPos + 1).toNat

/-- `gqa_eight_k_split_max` as the launcher passes it on. -/
def eightKSplitMax (l : GqaSmallTLaunch) : Nat :=
  gqaEightKSplitMax l.occupancy.smCount l.geometry.decodeSplitScale

/-- The lowest key the row attends to. Only the D=128 kernel takes a
sliding window. -/
def lowestKey (l : GqaSmallTLaunch) : Nat :=
  if l.geometry.headDim = 128 then gqaSlidingKeyLo l.firstPos l.windowSize
  else 0

/-- The split selection of the partial kernel the launcher dispatches to:
`gqa_attention_d128_partial_kernel` for a head dimension of 128, else
`gqa_attention_decode_i8_tiled_kernel` or the BF16 kernel. -/
def partialSelection (l : GqaSmallTLaunch) (split : Nat) : SplitResult :=
  if l.geometry.headDim = 128 then
    splitSelection 32
      (gqaSmallTActiveSplits l.geometry (l.dtype = .i8) l.window l.splits
        l.tokens 0)
      l.window l.lowestKey split
  else
    match l.dtype with
    | .i8 =>
      splitSelection (i8KeyBlock l.tokens l.envelope.maxVisibleKeys)
        (gqaSmallTActiveSplits l.geometry true l.window l.splits
          l.tokens l.eightKSplitMax)
        l.window 0 split
    | .bf16 =>
      splitSelection 32
        (gqaSmallTActiveSplits l.geometry false l.window l.splits l.tokens 0)
        l.window 0 split

/-- A block of the partial kernel. A row without valid columns, or with
positions outside the envelope, is neutral in every split. -/
def partialResult (l : GqaSmallTLaunch) (split : Nat) : SplitResult :=
  if l.validTokens = 0 then .neutral
  else if l.firstPos < 0 ∨ l.lastPos < 0 ∨
      (l.envelope.maxVisibleKeys : Int) ≤ l.lastPos then .neutral
  else l.partialSelection split

/-- The splits the reducer reads
(`gqa_attention_small_t_reduce_output_kernel`). -/
def reducedSplits (l : GqaSmallTLaunch) : Nat :=
  gqaSmallTActiveSplits l.geometry (l.dtype = .i8) l.window l.splits
    l.tokens l.eightKSplitMax

end GqaSmallTLaunch

end Ginfer.Ops
