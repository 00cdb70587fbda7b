/-
The sparse mixture of experts in prefill: which experts a token goes to,
where its activations are packed, and who writes its output
(ops/sparse_moe/sparse_moe_route.cuh, ops/sparse_moe/prefill,
`sparse_moe_d4_token_kernel` of ops/sparse_moe/decode).

A launch takes the tokens slice by slice. The kernels of a slice

- select eight experts for each token and number, expert by expert, the
  assignments of a tile of eight tokens with atomic counters
  (`selectTop8Warp`, `countTile`);
- scan the counts into the offsets of the experts and of their tiles, and
  list the column tiles of every expert as route jobs (`expertOffset`,
  `tileBase`, `jobWrites`);
- gather by tile base plus rank (`packed`), multiply, and accumulate into
  the destination. A narrow band of token counts leaves it to the scan
  whether the grouped kernels do that or the token-oriented ones, by the
  sign of the reported number of jobs.

The scores are of any type with a comparison; the weights computed from
them are left out. Nothing here exceeds 32768, so `int` never wraps.
-/
import Ginfer.Lib.Outcome
import Ginfer.Lib.PrefixSums
import Ginfer.Lib.Strides

namespace Ginfer.Ops.SparseMoe

open Ginfer.Lib List

-- ============ the selection

/-- `SparseMoeRankedValue`. -/
structure RankedValue (α : Type) where
  value : α
  id : Nat
  origin : Nat

section

variable {α : Type} [Preorder α]

/-- `sparse_moe_ranked_better`; two values are `==` when each is at most
the other. -/
def rankedBetter (a b : RankedValue α) : Prop :=
  b.value < a.value ∨ (a.value ≤ b.value ∧ b.value ≤ a.value) ∧ a.id < b.id

variable [DecidableLE α] [DecidableLT α]

instance : DecidableRel (@rankedBetter α _) := fun _ _ =>
  inferInstanceAs (Decidable (_ ∨ _))

/-- `__shfl_down_sync` over a whole warp: a lane whose source is not in
the warp gets its own value. -/
def shflDown (value : Nat → RankedValue α) (offset lane : Nat) : RankedValue α :=
  if lane + offset < 32 then value (lane + offset) else value lane

def warpBestStep (value : Nat → RankedValue α) (offset lane : Nat) :
    RankedValue α :=
  let other := shflDown value offset lane
  if rankedBetter other (value lane) then other else value lane

/-- `sparse_moe_warp_best`: what lane zero holds and shuffles out. -/
def warpBest (value : Nat → RankedValue α) : RankedValue α :=
  [16, 8, 4, 2, 1].foldl warpBestStep value 0

/-- One round of a lane's insertion sort: `value` moves down past the
values it is better than. The sorted part is given last first. -/
def shiftIn (value : RankedValue α) : List (RankedValue α) → List (RankedValue α)
  | [] => [value]
  | last :: rest =>
    if rankedBetter value last then last :: shiftIn value rest
    else value :: last :: rest

/-- What a lane loads: every thirty-second expert's score. -/
def laneValues (scores : Nat → α) (lane : Nat) : List (RankedValue α) :=
  (range 8).map fun item =>
    ⟨scores (lane + item * 32), lane + item * 32, lane⟩

/-- `local` after the sort. -/
def laneSorted (scores : Nat → α) (lane : Nat) : List (RankedValue α) :=
  ((laneValues scores lane).foldl
    (fun sorted value => shiftIn value sorted) []).reverse

/-- The cursors of the lanes and the winners so far. -/
structure Top8 (α : Type) where
  cursor : Nat → Nat
  winners : List (RankedValue α)

variable [OrderBot α]

/-- A lane's candidate; past its last value minus infinity stands in. -/
def candidate (scores : Nat → α) (cursor lane : Nat) : RankedValue α :=
  (laneSorted scores lane)[cursor]?.getD ⟨⊥, 0x7fffffff, lane⟩

/-- One rank of the selection loop. -/
def selectRank (scores : Nat → α) (top : Top8 α) : Top8 α :=
  let winner := warpBest fun lane =>
    candidate scores (top.cursor lane) lane
  { cursor := fun lane =>
      if lane = winner.origin then top.cursor lane + 1
      else top.cursor lane
    winners := top.winners ++ [winner] }

/-- `sparse_moe_select_top8_warp`. -/
def selectTop8Warp (scores : Nat → α) : List (RankedValue α) :=
  ((selectRank scores)^[8] ⟨fun _ => 0, []⟩).winners

/-- `ids[assignment]`, written for the token of the assignment. -/
def tokenId (scores : Nat → Nat → α) (assignment : Nat) : Nat :=
  (((selectTop8Warp (scores (assignment / 8))).map
    RankedValue.id)[assignment % 8]?).getD 0

end

-- ============ the rank of a tile

/-- The assignments of one block of the selection kernel, warp by warp. -/
def tileAssignments (tokens tile : Nat) : List Nat :=
  (((range 8).map fun warp => tile * 8 + warp).filter
      fun token => token < tokens).flatMap fun token =>
    (range 8).map fun rank => token * 8 + rank

/-- The shared counters of a block and the ranks it has handed out. -/
structure RankCounters where
  counts : Nat → Nat
  localRank : Nat → Nat

/-- `local_rank[assignment] = atomicAdd(&counts[ids[assignment]], 1)`. -/
def RankCounters.atomicAdd (ids : Nat → Nat) (c : RankCounters)
    (assignment : Nat) : RankCounters :=
  { counts := Function.update c.counts (ids assignment)
      (c.counts (ids assignment) + 1)
    localRank := Function.update c.localRank assignment
      (c.counts (ids assignment)) }

/-- A block's increments in the order they happen. -/
def countTile (ids : Nat → Nat) (order : List Nat) : RankCounters :=
  order.foldl (RankCounters.atomicAdd ids) ⟨fun _ => 0, fun _ => 0⟩

/-- A slice as its kernels find it: the router's scores by token and
expert, and in which order every block's increments happen. Any order
will do; the hardware keeps at least that of each warp. -/
structure Slice (α : Type) (tokens : Nat) where
  scores : Nat → Nat → α
  order : Nat → List Nat
  perm : ∀ tile, (order tile).Perm (tileAssignments tokens tile)

-- ============ the scan kernel

/-- One of the two shared scans: offsets `1, 2, …, 128`. -/
def expertScan (value : Nat → Nat) (expert : Nat) : Nat :=
  scanSteps 8 value expert

/-- What a thread reads of a scan: the sum before its expert. -/
def scanBase (value : Nat → Nat) (expert : Nat) : Nat :=
  if expert = 0 then 0 else expertScan value (expert - 1)

/-- The column tiles of an expert. -/
def expertJobs (count : Nat → Nat) (jobBn expert : Nat) : Nat :=
  (count expert + jobBn - 1) / jobBn

/-- `expert_offsets[expert]`; the last entry is the end. -/
def expertOffset (count : Nat → Nat) (expert : Nat) : Nat :=
  if expert = 256 then expertScan count 255 else scanBase count expert

/-- One entry of `route_job_experts` and `route_job_columns`. -/
structure RouteJob where
  expert : Nat
  column : Nat

/-- What the threads write into the two arrays, with the index. -/
def jobWrites (count : Nat → Nat) (jobBn : Nat) : List (Nat × RouteJob) :=
  (range 256).flatMap fun expert =>
    (range (expertJobs count jobBn expert)).map fun job =>
      (scanBase (expertJobs count jobBn) expert + job, ⟨expert, job * jobBn⟩)

/-- `*route_job_count`: a negative count selects the token-oriented
route. -/
def routeJobCount (count : Nat → Nat) (jobBn tokens : Nat)
    (adaptive : Bool) : Int :=
  let jobs := expertScan (expertJobs count jobBn) 255
  if adaptive && jobs * 2 > 7 * tokens then -jobs else jobs

/-- The packed columns a grouped kernel takes for a route job. -/
def jobColumns (offset : Nat → Nat) (jobBn : Nat) (job : RouteJob) : List Nat :=
  let begin := offset job.expert
  let count := offset (job.expert + 1) - begin
  let cols :=
    if count - job.column < jobBn then count - job.column else jobBn
  (range cols).map fun col => begin + job.column + col

-- ============ one slice

/-- `QType`. -/
inductive QType where
  | q4g64F16s
  | q5g64F16s
  | q6g64F16s
  | w8g32F16s
  | bf16Ctrl
  | fp32Ctrl
  | i32Ctrl
  | nvfp4
  | fp8E4m3fnRowBf16s

def adaptiveLast : QType → Nat
  | .q5g64F16s => 51
  | .q6g64F16s => 52
  | _ => 0

/-- Whether the launcher leaves the choice of the route to the scan. -/
def adaptive (routedDown : QType) (tokens : Nat) : Bool :=
  47 ≤ tokens && tokens ≤ adaptiveLast routedDown

def routeTiles (tokens : Nat) : Nat := (tokens + 8 - 1) / 8

/-- The launcher's `route_job_bn`. -/
def routeJobBn (tokens : Nat) : Nat := if 768 ≤ tokens then 64 else 32

/-- `max_route_jobs` of the workspace for `capacity` tokens. -/
def maxRouteJobs (capacity : Nat) : Nat := 8 * capacity / 32 + 256

namespace Slice

variable {α : Type} [Preorder α] [DecidableLE α] [DecidableLT α]
  [OrderBot α] {tokens : Nat}

def ids (slice : Slice α tokens) : Nat → Nat := tokenId slice.scores

/-- `tile_counts`. -/
def tileCounts (slice : Slice α tokens) (tile expert : Nat) : Nat :=
  (countTile slice.ids (slice.order tile)).counts expert

/-- `packed_index` as the selection leaves it. -/
def localRank (slice : Slice α tokens) (assignment : Nat) : Nat :=
  (countTile slice.ids (slice.order (assignment / 8 / 8))).localRank assignment

/-- A scan thread's `count`: the sum over the tiles. -/
def counts (slice : Slice α tokens) (expert : Nat) : Nat :=
  prefixSum (fun tile => slice.tileCounts tile expert) (routeTiles tokens)

def offset (slice : Slice α tokens) : Nat → Nat :=
  expertOffset slice.counts

/-- `tile_bases`: the cursor of the expert after the tiles before. -/
def tileBase (slice : Slice α tokens) (tile expert : Nat) : Nat :=
  scanBase slice.counts expert +
    prefixSum (fun before => slice.tileCounts before expert) tile

/-- The gather kernel's column for an assignment. Thread 0 then puts it in
place of the rank in `packed_index`, with no barrier after the block's
reads; here every thread has read the rank. -/
def packed (slice : Slice α tokens) (assignment : Nat) : Nat :=
  slice.tileBase (assignment / 8 / 8) (slice.ids assignment) +
    slice.localRank assignment

def jobWrites (slice : Slice α tokens) : List (Nat × RouteJob) :=
  SparseMoe.jobWrites slice.counts (routeJobBn tokens)

def routeJobCount (routedDown : QType) (slice : Slice α tokens) : Int :=
  SparseMoe.routeJobCount slice.counts (routeJobBn tokens) tokens
    (adaptive routedDown tokens)

end Slice

-- ============ the accumulation

/-- The stores of `sparse_moe_prefill_w8_down_kernel<false>` into the
destination, by token and row: for every block, warp, lane and fragment
the two columns and the two rows of an accumulator. -/
def sharedDownStores (tokens : Nat) : List (Nat × Nat) :=
  (range 32 ×ˢ range ((tokens + 64 - 1) / 64) ×ˢ
      range 8 ×ˢ range 32 ×ˢ range 4 ×ˢ range 2 ×ˢ
      range 2).filterMap
    fun (blockX, blockY, warp, lane, mi, colHalf, rowHalf) =>
      let gid := lane / 4
      let lid := lane % 4
      let begin := blockY * 64
      let count := if tokens - begin < 64 then tokens - begin else 64
      let localCol := warp * 8 + 2 * lid + colHalf
      if warp * 8 < count && localCol < count then
        some (begin + localCol, blockX * 64 + mi * 16 + gid + rowHalf * 8)
      else none

/-- The stores of `sparse_moe_d4_token_kernel<_, 4, true>`. -/
def tokenStores (tokens : Nat) : List (Nat × Nat) :=
  (gridStride (tokens * 512) 2560).flatMap fun work =>
    let token := work / 512
    let rowBase := (work - token * 512) * 4
    (range 4).map fun lane => (token, rowBase + lane)

/-- The two routes that accumulate. -/
inductive Route where
  | grouped
  | token
  deriving DecidableEq

/-- The accumulations of a slice, by its own tokens: the token-oriented
kernel is launched when adaptive and returns on a count from zero on, the
shared down kernel returns on a negative one when adaptive. -/
def sliceStores (tokens : Nat) (adaptive : Bool) (jobCount : Int) :
    List (Route × Nat × Nat) :=
  (if adaptive then
      if 0 ≤ jobCount then [] else
        (tokenStores tokens).map fun cell => (Route.token, cell)
    else []) ++
  (if adaptive && decide (jobCount < 0) then [] else
    (sharedDownStores tokens).map fun cell => (Route.grouped, cell))

-- ============ the launch

/-- `SparseMoePrefillPlan`, less the workspace size. -/
structure PrefillPlan where
  tokens : Nat
  sliceTokens : Nat

def prefillMinTokens : QType → QType → Nat
  | .q4g64F16s, .q5g64F16s => 47
  | .q4g64F16s, .q6g64F16s => 47
  | .w8g32F16s, .w8g32F16s => 20
  | _, _ => 0

/-- `resolve_sparse_moe_prefill_plan`. -/
def resolvePrefillPlan (tokens : Nat) (routedGateUp routedDown : QType) :
    Except Exception PrefillPlan :=
  let minimum := prefillMinTokens routedGateUp routedDown
  if minimum = 0 then
    .error (.invalidArgument
      "sparse_moe prefill: unsupported routed codec profile")
  else if tokens < minimum then
    .error (.invalidArgument "sparse_moe prefill: unsupported token count")
  else
    .ok ⟨tokens, min tokens 4096⟩

/-- The tokens of the slice from `token0`. -/
def PrefillPlan.sliceSize (plan : PrefillPlan) (token0 : Nat) : Nat :=
  min plan.sliceTokens (plan.tokens - token0)

/-- The first tokens of the slices of `sparse_moe_prefill_launch`. -/
def PrefillPlan.starts (plan : PrefillPlan) : List Nat :=
  strideLoop 0 plan.tokens plan.sliceTokens

/-- All accumulations of a launch into the destination. -/
def launchStores {α : Type} [Preorder α] [DecidableLE α] [DecidableLT α]
    [OrderBot α] (plan : PrefillPlan) (routedDown : QType)
    (slices : (token0 : Nat) → Slice α (plan.sliceSize token0)) :
    List (Route × Nat × Nat) :=
  plan.starts.flatMap fun token0 =>
    let tokens := plan.sliceSize token0
    (sliceStores tokens (adaptive routedDown tokens)
        ((slices token0).routeJobCount routedDown)).map
      fun (route, token, row) => (route, token0 + token, row)

end Ginfer.Ops.SparseMoe
