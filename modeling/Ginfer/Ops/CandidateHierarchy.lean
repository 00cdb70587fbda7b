/-
The selection of a column's best candidates in three levels
(ops/kernel/sampling.cuh, sampling_device.cuh, ops/launcher/
dflash2_select.cu, the predicates of ops/common/*_workspace.h).

A column is the ordered value of each token, the image of
`sampling_ordered_float`: none is beyond the infinities. Every CTA gets
its list of keys in a fixed order; the slots its threads take with
`atomicAdd` come in the order an oracle gives. The fallback is one block
of 256 threads, each with an insertion list, merged by thread zero.
-/
import Ginfer.Lib.Strides
import Ginfer.Lib.Top

namespace Ginfer.Ops.Candidates

open Ginfer.Lib List

-- ============ the keys

def intMax : Nat := 2 ^ 31 - 1

/-- `sampling_sort_key`, of an ordered value and a token. -/
def sortKey (value token : Nat) : Nat :=
  if token = intMax then 0 else value <<< 32 ||| (0xffffffff - token)

/-- `sampling_ordered_float` of the infinities. -/
def orderedNegInf : Nat := 0x007fffff
def orderedInf : Nat := 0xff800000

structure Column where
  domain : Nat
  value : Nat → Nat
  tokens : domain ≤ intMax
  ordered : ∀ token < domain, orderedNegInf ≤ value token ∧ value token ≤ orderedInf

def Column.key (c : Column) (token : Nat) : Nat := sortKey (c.value token) token

def Column.keys (c : Column) : List Nat := (range c.domain).map c.key

-- ============ the selections

/-- The digits of a byte pass, from 255 down, and the rank that is left. -/
def scanDigits (histogram : Nat → Nat) : (digits rank : Nat) → Option (Nat × Nat)
  | 0, _ => none
  | digit + 1, rank =>
    if histogram digit < rank then
      scanDigits histogram digit (rank - histogram digit)
    else some (digit, rank)

structure Radix where
  prefixBits : Nat
  rank : Nat
  prefixMask : Nat

/-- A pass of `sampling_select_top_keys` and `dflash2_select_top_keys`. -/
def radixPass (keys : List Nat) (s : Radix) (shift : Nat) : Radix :=
  let histogram digit := keys.countP fun key =>
    key ≠ 0 ∧ key &&& s.prefixMask = s.prefixBits ∧ (key >>> shift) &&& 0xff = digit
  let mask := s.prefixMask ||| 0xff <<< shift
  match scanDigits histogram 256 s.rank with
  | some (digit, rank) => ⟨s.prefixBits ||| digit <<< shift, rank, mask⟩
  | none => { s with prefixMask := mask }

def radixThreshold (keys : List Nat) (cap : Nat) : Nat :=
  ([56, 48, 40, 32, 24, 16, 8, 0].foldl (radixPass keys) ⟨0, cap, 0⟩).prefixBits

/-- The order in which a CTA's candidates take their slots. -/
structure SlotOrder where
  slots : List Nat → List Nat
  perm : ∀ keys, (slots keys).Perm keys

inductive Select where
  | greedy
  | sort
  | radix
  deriving DecidableEq

/-- What a CTA writes of its keys; the shuffle tree of
`sampling_block_max_key` is a fold. -/
def Select.run (select : Select) (cap : Nat) (order : SlotOrder) (keys : List Nat) :
    List Nat :=
  match select with
  | .greedy => [keys.foldl max 0]
  | .sort => top cap keys
  | .radix =>
    (order.slots (keys.filter (radixThreshold keys cap ≤ ·))).take cap

-- ============ the routes

inductive Route where
  | sampler
  | wide
  | accept
  | selector
  deriving DecidableEq

/-- Tokens a tile, tiles a group, keys a merge tile, the pipeline's cap. -/
structure Sizes where
  tile : Nat
  perGroup : Nat
  mergeTile : Nat
  pipelineCap : Nat

def Route.sizes : Route → Sizes
  | .sampler => ⟨512, 25, 512, 20⟩
  | .wide | .accept => ⟨1024, 16, 1024, 64⟩
  | .selector => ⟨1024, 32, 512, 16⟩

def divUp (a b : Nat) : Nat := (a + b - 1) / b

def Route.partialCount (r : Route) (domain : Nat) : Nat := divUp domain r.sizes.tile

def Route.groupCount (r : Route) (domain : Nat) : Nat :=
  divUp (r.partialCount domain) r.sizes.perGroup

/-- `sampler_multiblock_ok`, `sampler_wide_multiblock_ok`,
`dflash2_accept_hierarchy_ok`, `dflash2_selector_hierarchy_ok`. -/
def Route.ok (r : Route) (domain columns topK : Nat) : Prop :=
  0 < columns ∧ 0 < r.partialCount domain ∧ 0 < r.groupCount domain ∧ match r with
  | .sampler => 256 < domain ∧ domain ≠ 202048 ∧ columns ≤ 16
      ∧ r.groupCount domain * 20 ≤ 512
  | .wide => domain = 202048 ∧ columns ≤ 16 ∧ 16 * 64 ≤ 1024
      ∧ r.groupCount domain * 64 ≤ 1024
  | .accept => 256 < domain ∧ columns ≤ 16 * 8 ∧ 16 * 64 ≤ 1024
      ∧ r.groupCount domain * 64 ≤ 1024
  | .selector => 1024 < domain ∧ 0 < topK ∧ topK ≤ 16 ∧ topK ≤ domain
      ∧ columns ≤ 16 * 8 ∧ 32 * topK ≤ 512 ∧ r.groupCount domain * topK ≤ 512

/-- `sampling_candidate_cap`. -/
def candidateCap (topK : Int) (domain pipelineCap : Nat) : Nat :=
  let cap := if 0 < topK ∧ topK < pipelineCap then topK.toNat else pipelineCap
  if domain < cap then domain else cap

/-- A launch that a predicate has accepted; the selector has no greedy
configuration, and its `top_k` is a parameter. -/
structure Launch where
  route : Route
  column : Column
  columns : Nat
  greedy : Bool
  topK : Int
  ok : route.ok column.domain columns topK.toNat

namespace Launch

variable (l : Launch)

def cap : Nat :=
  match l.route with
  | .selector => l.topK.toNat
  | r => if l.greedy then 1 else candidateCap l.topK l.column.domain r.sizes.pipelineCap

def select : Select :=
  match l.route with
  | .selector => .sort
  | .sampler => if l.greedy then .greedy else .sort
  | .wide | .accept =>
    if l.greedy then .greedy else if 2 < l.columns then .radix else .sort

-- ============ the hierarchy

def partials : Nat := l.route.partialCount l.column.domain
def groups : Nat := l.route.groupCount l.column.domain

/-- The keys of a tile; past the domain they are zero. -/
def tileKeys (tile : Nat) : List Nat :=
  (range l.route.sizes.tile).map fun i =>
    let token := tile * l.route.sizes.tile + i
    if token < l.column.domain then l.column.key token else 0

/-- Lists side by side in a merge tile. -/
def gather (lists : List (List Nat)) : List Nat :=
  lists.flatten.take l.route.sizes.mergeTile
    ++ replicate (l.route.sizes.mergeTile - lists.flatten.length) 0

/-- The partial lists of a group. -/
def groupPartials (group : Nat) : List Nat :=
  ((range l.partials).drop (group * l.route.sizes.perGroup)).take l.route.sizes.perGroup

variable (order : Nat → Nat → SlotOrder)

def partialList (tile : Nat) : List Nat :=
  l.select.run l.cap (order 0 tile) (l.tileKeys tile)

def groupList (group : Nat) : List Nat :=
  l.select.run l.cap (order 1 group)
    (l.gather ((l.groupPartials group).map (l.partialList order)))

/-- The final merge; `order` gives each level's CTAs their oracle. -/
def hierarchy : List Nat :=
  let merged := l.gather ((range l.groups).map (l.groupList order))
  match l.select with
  | .greedy => [merged.foldl max 0]
  | _ => top l.cap merged

-- ============ the fallback

/-- `sampling_better`, of a value and an index. -/
def better (a b : Nat × Nat) : Bool := b.1 < a.1 ∨ b.1 = a.1 ∧ a.2 < b.2

abbrev AtMost (a b : Nat × Nat) : Prop := ¬ better a b

/-- `sampling_insert_candidate` and `insert_top`; the last slot first. -/
def insertCandidate (slots : List (Nat × Nat)) (x : Nat × Nat) : List (Nat × Nat) :=
  match slots with
  | [] => []
  | worst :: rest =>
    if better x worst then rest.orderedInsert AtMost x else slots

def emptySlot : Nat × Nat := (orderedNegInf, intMax)

def emptySlots : List (Nat × Nat) := replicate l.cap emptySlot

def threadSlots (thread : Nat) : List (Nat × Nat) :=
  ((strideLoop thread l.column.domain 256).map fun token =>
    (l.column.value token, token)).foldl insertCandidate l.emptySlots

/-- The best first, as keys; the selector's merge skips no empty slot. -/
def fallback : List Nat :=
  let staged := (range 256).flatMap fun thread => (l.threadSlots thread).reverse
  let merged := if l.route = .selector then staged else staged.filter (·.2 ≠ intMax)
  (merged.foldl insertCandidate l.emptySlots).reverse.map fun x => sortKey x.1 x.2

end Launch

end Ginfer.Ops.Candidates
