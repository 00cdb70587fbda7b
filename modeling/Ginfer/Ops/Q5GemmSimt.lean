/-
The small-column Q5 matrix product (`q5_rowsplit_gemm_simt_kernel`,
ops/linear/q5/q5_rowsplit_gemm_simt.cuh) with the grid of its launchers.

A warp's staging buffers are explicit. A copy is in flight from its issue
to the wait that covers its commit group; a buffer with a copy in flight,
or that never held one, cannot be read, and the row's result is then
`none`. Numbers are exact; the conversion of a scale's word is an operand.
A buffer holds what the lanes of the warp have copied.
-/
import Ginfer.Ops.RowSplitDecode
import Ginfer.Ops.Warp

namespace Ginfer.Ops.Q5Simt

open Ginfer.Ops.RowSplit List
open Ginfer.Ops.Warp

/-- The template's constants and the arguments of a launch. `split` is
`SplitRow` when the output is split. -/
structure Launch where
  n : Nat
  k : Nat
  t : Nat
  columnTile : Nat
  rowsPerBlock : Nat
  stages : Nat
  split : Option Nat
  outLd : Nat
  paddedK : Nat
  fullSlabs : Nat
  sizes : 1 ≤ n ∧ 1 ≤ k ∧ 1 ≤ t
  tiles : 1 ≤ columnTile ∧ 1 ≤ rowsPerBlock
  pipeline : 2 ≤ stages
  seam : ∀ row ∈ split, 1 ≤ row
  room : min (split.getD n) n ≤ outLd
  padded : paddedK = (k + 127) / 128 * 128
  slabs : fullSlabs = 0 ∨ 8 ∣ k ∧ fullSlabs = k / 1024

/-- The tensors, and `__half2float` of a scale's word. -/
structure Operands where
  x : Nat → ℚ
  codes : Plane
  high : Plane
  scales : Plane
  half : Nat → ℚ

def Operands.value (o : Operands) (w : Decoded) : ℚ :=
  w.value / 2 ^ 24 * o.half w.scale

-- ============ the ring

/-- A slab in a buffer: `s_nib`, `s_hi`, `s_sc`. -/
structure Slab where
  nibbles : Plane
  high : Plane
  scales : Plane

/-- The buffers of a warp, and its commit groups that no wait has covered,
the oldest first; a group copies into one buffer at most. -/
structure Ring where
  buffers : Nat → Option Slab
  pending : List (Option (Nat × Slab))

namespace Ring

/-- The copies of a slab and their `pipe_commit`. -/
def issue (r : Ring) (buf : Nat) (slab : Slab) : Ring where
  buffers := Function.update r.buffers buf none
  pending := r.pending ++ [some (buf, slab)]

/-- A `pipe_commit` alone. -/
def commit (r : Ring) : Ring := { r with pending := r.pending ++ [none] }

def land (buffers : Nat → Option Slab) : Option (Nat × Slab) → Nat → Option Slab
  | some (buf, slab) => Function.update buffers buf (some slab)
  | none => buffers

/-- `pipe_wait<groups>`: all groups but the latest are complete. -/
def wait (r : Ring) (groups : Nat) : Ring where
  buffers := (r.pending.take (r.pending.length - groups)).foldl land r.buffers
  pending := r.pending.drop (r.pending.length - groups)

/-- What a buffer without a copy in flight holds. -/
def read (r : Ring) (buf : Nat) : Option Slab :=
  if ∃ group ∈ r.pending, group.map Prod.fst = some buf then none
  else r.buffers buf

end Ring

-- ============ a row

/-- What `lanes` copies of `size` bytes leave in a buffer. -/
def pipeCopies (plane : Plane) (source lanes size : Nat) : Plane := fun byte =>
  let lane := byte / size
  if lane < lanes then plane (source + lane * size + byte % size) else 0

variable (l : Launch) (o : Operands)

def Launch.prefetch : Nat := l.stages - 1
def Launch.groupsPadded : Nat := l.paddedK / 64

/-- The copies of `q5_simt_issue_slab`. -/
def stagedSlab (row slab : Nat) : Slab where
  nibbles := pipeCopies o.codes (row * l.groupsPadded * 32 + slab * (32 * 16)) 32 16
  high := pipeCopies o.high (row * l.groupsPadded * 8 + slab * (8 * 16)) 8 16
  scales := pipeCopies o.scales (row * l.groupsPadded * 2 + slab * (8 * 4)) 8 4

/-- Either arm of the prologue and of the fetch of an iteration. -/
def fetchSlab (row : Nat) (r : Ring) (fetch buf : Nat) : Ring :=
  if fetch < l.fullSlabs then r.issue buf (stagedSlab l o row fetch)
  else r.commit

/-- `dequant_chunk`, which computes what `decode_eight` does. -/
def dequantChunk (slab : Slab) (c lane item : Nat) : Decoded :=
  q5Eight (loadU32 slab.nibbles ((c * 32 + lane) * 4))
    (slab.high (c * 32 + lane)).toNat
    (loadU16 slab.scales ((c * 4 + (lane >>> 3)) * 2)) item

/-- `acc`, of each lane. -/
abbrev Accumulators := Nat → Nat → ℚ

/-- `q5_simt_consume_slab`. -/
def consumeSlab (col0 ncols s : Nat) (slab : Slab) (acc : Accumulators) :
    Accumulators := fun lane tt =>
  if tt < ncols then
    (range 4).foldl (fun a c => (range 8).foldl (fun a item =>
      o.value (dequantChunk slab c lane item)
        * o.x (col0 * l.k + tt * l.k + (s * 1024 + c * 256 + lane * 8) + item) + a) a)
      (acc lane tt)
  else acc lane tt

/-- An iteration of the slab loop. -/
def slabStep (row col0 ncols : Nat) (state : Ring × Accumulators) (s : Nat) :
    Option (Ring × Accumulators) := do
  let fetch := s + l.prefetch
  let ring := (fetchSlab l o row state.1 fetch (fetch % l.stages)).wait l.prefetch
  let slab ← ring.read (s % l.stages)
  pure (ring, consumeSlab l o col0 ncols s slab state.2)

/-- An iteration of the scalar tail. -/
def tailStep (row col0 ncols : Nat) (acc : Accumulators) (g : Nat) :
    Accumulators := fun lane tt =>
  let kk := g * 64 + lane * 2
  if l.k ≤ kk then acc lane tt
  else
    let w := q5ScalarPair o.codes o.high o.scales (row * l.groupsPadded + g) lane
    if tt < ncols then
      let xb := col0 * l.k + (tt * l.k + kk)
      let a := o.value w.1 * o.x xb + acc lane tt
      if kk + 1 < l.k then o.value w.2 * o.x (xb + 1) + a else a
    else acc lane tt

/-- A store: in the tail tensor or not, the element, the value. -/
structure Store where
  tail : Bool
  element : Nat
  value : ℚ

/-- The element of `out[row, col]`. -/
def outCell (row col : Nat) : Bool × Nat :=
  match l.split with
  | none => (false, col * l.outLd + row)
  | some splitRow =>
    if row < splitRow then (false, col * l.outLd + row)
    else (true, col * (l.n - splitRow) + row - splitRow)

/-- A warp of the kernel. -/
def warpStores (row tile : Nat) : Option (List Store) :=
  if l.n ≤ row then pure []
  else do
    let col0 := tile * l.columnTile
    let ncols := min l.columnTile (l.t - col0)
    let prologue := (range l.prefetch).foldl
      (fun ring p => fetchSlab l o row ring p p) ⟨fun _ => none, []⟩
    let (_, acc) ← (range l.fullSlabs).foldlM (slabStep l o row col0 ncols)
      (prologue, fun _ _ => 0)
    let g0 := l.fullSlabs * 1024 / 64
    let used := (l.k + 63) / 64
    let acc := (range (used - g0)).foldl
      (fun acc i => tailStep l o row col0 ncols acc (g0 + i)) acc
    pure ((range l.columnTile).filterMap fun tt =>
      if ncols ≤ tt then none
      else
        let cell := outCell l row (col0 + tt)
        some ⟨cell.1, cell.2, warpReduceSum (fun lane => acc lane tt) 0⟩)

/-- The grid: blocks of rows by tiles of columns, a warp a row. -/
def gridStores : Option (List Store) := do
  let rows := (range ((l.n + l.rowsPerBlock - 1) / l.rowsPerBlock)).flatMap
    fun block => (range l.rowsPerBlock).map (block * l.rowsPerBlock + ·)
  let stores ← rows.mapM fun row => do
    let stores ← (range ((l.t + l.columnTile - 1) / l.columnTile)).mapM
      (warpStores l o row)
    pure stores.flatten
  pure stores.flatten

-- ============ the product

/-- `w(row, column)` of the stored matrix. -/
def weight (row column : Nat) : ℚ :=
  let group := row * l.groupsPadded + column / 64
  o.value (pick (q5ScalarPair o.codes o.high o.scales group (column % 64 / 2))
    (column % 64))

def product (row col : Nat) : ℚ :=
  ∑ column ∈ Finset.range l.k, weight l o row column * o.x (col * l.k + column)

end Ginfer.Ops.Q5Simt
