/-
Draft attention over a cyclic sliding window
(ops/kernel/bidirectional_gqa_attention.cuh with `CyclicSwa`,
ops/launcher/swa.{h,cu}).

The columns of a draft attend to the last keys of the context, which lie in
a cyclic cache, and to each other. The context is cut into tiles of 32
keys; a split has a stretch of them, and the last split also has the tile
of the query keys. With more than three tiles the splits are blocks of
their own, and a second kernel combines what they have left.

What the model keeps of a block is which elements of the cache and of the
query keys each of its rows is combined with, and where it leaves the
result; the products, the softmax and the weights of the reduction are left
out. Key and value of an element are read from one place. `WarpsPerCta`
warps of 16 rows cover the rows of a block.
-/
import Ginfer.Lib.Outcome

namespace Ginfer.Ops.Swa

open Ginfer.Lib

-- ============ the plan

/-- `SwaContextExecutionEnvelope`. -/
structure SwaContextExecutionEnvelope where
  minContext : Nat
  maxContext : Nat

/-- `SwaRoute`. -/
inductive SwaRoute where
  | direct
  | splitKv

/-- `SwaPlan`. -/
structure SwaPlan where
  route : SwaRoute
  tokens : Nat
  warps : Nat
  splitCapacity : Nat
  maxContext : Int
  window : Nat

/-- `KeyBlock`, and `key_block` of the plan. -/
def keyBlock : Nat := 32

/-- `static_cast<std::int32_t>` of a context. -/
def castInt32 (context : Nat) : Int := (context : Int).bmod (2 ^ 32)

/-- `swa_resolve_plan`. -/
def swaResolvePlan (tokens : Int) (e : SwaContextExecutionEnvelope)
    (window : Int) : Except Exception SwaPlan :=
  if tokens < 1 ∨ 16 < tokens then
    .error (.invalidArgument "swa plan: T must be 1..16")
  else if e.maxContext < e.minContext then
    .error (.invalidArgument "swa plan: invalid envelope")
  else if window ≠ 2048 ∧ window ≠ 4096 then
    .error (.invalidArgument "swa plan: window must be 2048 or 4096")
  else
    let directContextLimit := 96
    let direct := e.maxContext ≤ directContextLimit
    let contextRows := min e.maxContext (window - 1).toNat
    let contextTiles := (contextRows + keyBlock - 1) / keyBlock
    let splitLimit := 32
    .ok {
      route := if direct then .direct else .splitKv
      tokens := tokens.toNat
      warps := (tokens.toNat + 3) / 4
      splitCapacity :=
        if direct then 1 else min splitLimit (max 1 contextTiles)
      maxContext := castInt32 e.maxContext
      window := window.toNat }

/-- `kSwaMaxCandidateSplit`. -/
def swaMaxCandidateSplit : Nat := 32

/-- The check of `swa_launch` on its plan. -/
def SwaPlan.Consistent (plan : SwaPlan) : Prop :=
  plan.warps = (plan.tokens + 3) / 4 ∧ 1 ≤ plan.splitCapacity
    ∧ plan.splitCapacity ≤ swaMaxCandidateSplit
    ∧ (plan.route = .direct → plan.splitCapacity = 1)

-- ============ the rows

/-- `kBidirectionalGqaGroup`. -/
def group : Nat := 4

/-- `kBidirectionalGqaQHeads`. -/
def qHeads : Nat := 32

/-- `noncausal_gqa_row_to_qt`: the query head and the token of a row. -/
def rowToQt (row kvHead : Nat) : Nat × Nat :=
  let token := row / group
  (kvHead * group + (row - token * group), token)

/-- What a launch knows of a row of its batch: its positions and its valid
columns. -/
structure BatchRow where
  positions : Nat → Int
  valid : Int

/-- An element that is attended to: of the cyclic cache, by its slot, or of
the query keys, by its column. -/
inductive Source where
  | context (slot : Nat)
  | query (column : Nat)

-- ============ the splits

section

variable (plan : SwaPlan) (b : BatchRow)

/-- `length`. -/
def BatchRow.length : Int := b.positions 0

/-- `context_count`. -/
def contextCount : Nat := min b.length.toNat (plan.window - 1)

/-- `context_tiles`, in either kernel. -/
def contextTiles : Nat :=
  (contextCount plan b + keyBlock - 1) / keyBlock

/-- `active_splits`, in either kernel. -/
def activeSplits : Nat :=
  if 0 < contextTiles plan b then
    min (contextTiles plan b) plan.splitCapacity
  else 1

/-- `tile_begin`; `tile_end` is that of the next split. -/
def tileBegin (split : Nat) : Nat :=
  contextTiles plan b * split / activeSplits plan b

/-- `context_tile_count`. -/
def contextTileCount (split : Nat) : Nat :=
  tileBegin plan b (split + 1) - tileBegin plan b split

/-- `owns_query`. -/
def ownsQuery (split : Nat) : Prop := split = activeSplits plan b - 1

instance (split : Nat) : Decidable (ownsQuery plan b split) :=
  inferInstanceAs (Decidable (_ = _))

/-- `iterations`. -/
def iterations (split : Nat) : Nat :=
  contextTileCount plan b split + if ownsQuery plan b split then 1 else 0

/-- A tile: whether it is that of the query keys, its first key, and how
many of its keys there are. -/
structure Tile where
  isQuery : Bool
  key0 : Nat
  validKeys : Int

/-- `tile_metadata`. -/
def tileMetadata (split iteration : Nat) : Tile :=
  if contextTileCount plan b split ≤ iteration then ⟨true, 0, b.valid⟩
  else
    let contextStart := b.length.toNat - contextCount plan b
    let key0 := contextStart + (tileBegin plan b split + iteration) * keyBlock
    ⟨false, key0, min keyBlock (b.length - key0)⟩

/-- `bidirectional_gqa_stage_tile`: where a live key of a tile is staged
from. -/
def stagedFrom (tile : Tile) (column : Nat) : Source :=
  if tile.isQuery then .query column
  else .context ((tile.key0 + column) &&& (plan.window - 1))

/-- Whether a score of a row counts (`allow00` to `allow11`). -/
def allowed (tile : Tile) (row column : Nat) : Prop :=
  let rowCount := plan.tokens * group
  let qPosition := b.positions (if row < rowCount then row / group else 0)
  (row < rowCount ∧ (row / group : Nat) < b.valid) ∧ column < tile.validKeys
    ∧ (tile.isQuery = true
      ∨ qPosition - ((plan.window - 1 : Nat) : Int) ≤ (tile.key0 + column : Nat))

instance (tile : Tile) (row column : Nat) :
    Decidable (allowed plan b tile row column) :=
  inferInstanceAs (Decidable ((_ ∧ _) ∧ _ ∧ _))

/-- What a row of a split is combined with, tile by tile. -/
def rowSources (split row : Nat) : List Source :=
  (List.range (iterations plan b split)).flatMap fun iteration =>
    let tile := tileMetadata plan b split iteration
    (List.range keyBlock).filterMap fun column =>
      if allowed plan b tile row column then some (stagedFrom plan tile column)
      else none

/-- `noncausal_gqa_split_partial_body`: what the block of a split combines a
row with, or nothing where it returns before it stores. -/
def partialBody (split row : Nat) : Option (List Source) :=
  if plan.window ≠ 2048 ∧ plan.window ≠ 4096 then none
  else if plan.splitCapacity ≤ split ∨ b.length < 0
      ∨ plan.maxContext < b.length ∨ b.valid < 1
      ∨ plan.tokens < b.valid then none
  else if activeSplits plan b ≤ split then none
  else some (rowSources plan b split row)

/-- The blocks of the grid that store what they have of a row. -/
def writtenSplits (row : Nat) : List Nat :=
  (List.range plan.splitCapacity).filter fun split =>
    (partialBody plan b split row).isSome

/-- `bidirectional_gqa_stat_index`, with the offset of the batch row. -/
def statIndex (batch qHead token split : Nat) : Nat :=
  qHeads * plan.tokens * plan.splitCapacity * batch
    + (qHead + qHeads * (token + plan.tokens * split))

/-- `MaxSplits` of `swa_reduce_kernel`, the weights of a warp. -/
def maxSplits : Nat := 128

/-- The splits `swa_reduce_kernel` reads for a token; for one it does not
combine it stores zeros. -/
def reducedSplits (token : Nat) : Option (List Nat) :=
  if b.length < 0 ∨ plan.maxContext < b.length ∨ b.valid ≤ token then none
  else some (List.range (activeSplits plan b))

/-- What a query of a row of the batch is combined with: by the only block
of its head, or by all the splits the reduction reads. -/
def attended (token qLocal : Nat) : Option (List Source) :=
  let row := token * group + qLocal
  match plan.route with
  | .direct => partialBody plan b 0 row
  | .splitKv => do
    let splits ← reducedSplits plan b token
    let parts ← splits.mapM fun split => partialBody plan b split row
    return parts.flatten

end

end Ginfer.Ops.Swa
