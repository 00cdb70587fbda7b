/-
The NVFP4 matrix-vector kernel (ops/linear/nvfp4/nvfp4_gemv.cuh,
nvfp4_config.h) and the reference reading of its scales
(`unswizzle_nvfp4_scales`, tools/artifact/layouts.py).

Numbers are exact. The two conversions of the device library, of a nibble
and of a scale byte, are operands: `decode_nvfp4_e2m1x2` converts the low
nibble first. The launch constants are one value with the kernel's static
assertions as fields; the cache policy of the code loads and the residency
bound change no value and are left out.
-/
import Ginfer.Lib.Launch
import Ginfer.Ops.RowSplitDecode
import Ginfer.Ops.Warp

namespace Ginfer.Ops.Nvfp4

open Ginfer.Lib List
open Ginfer.Ops.RowSplit (Plane loadU32)
open Ginfer.Ops.Warp

-- ============ the constants

/-- `Nvfp4ScaleAccess`. -/
inductive ScaleAccess where
  | stagedRaw
  | direct

/-- `Nvfp4GemvGeometry`. -/
structure Geometry where
  outputRows : Nat
  inputRows : Nat
  positive : 0 < outputRows ∧ 0 < inputRows
  rowTiles : 128 ∣ outputRows
  columnTiles : 64 ∣ inputRows

def Geometry.groupsPerRow (g : Geometry) : Nat := g.inputRows / 16
def Geometry.scaleTilesPerRow (g : Geometry) : Nat := g.inputRows / 64
def Geometry.codeBytesPerRow (g : Geometry) : Nat := g.inputRows / 2

/-- `Nvfp4GemvSchedule`. -/
structure Schedule where
  warpsPerCta : Nat
  rowsPerWarp : Nat
  valuesPerLane : Nat
  accumulatorChains : Nat
  scaleAccess : ScaleAccess
  warps : 0 < warpsPerCta ∧ warpsPerCta ≤ 32
  rows : 0 < rowsPerWarp ∧ rowsPerWarp ≤ 8
  values : valuesPerLane = 8 ∨ valuesPerLane = 16 ∨ valuesPerLane = 32
  chains : 0 < accumulatorChains
    ∧ accumulatorChains &&& (accumulatorChains - 1) = 0
  pairs : accumulatorChains ≤ valuesPerLane / 2

def Schedule.threads (s : Schedule) : Nat := s.warpsPerCta * 32
def Schedule.rowsPerCta (s : Schedule) : Nat := s.warpsPerCta * s.rowsPerWarp
def Schedule.pairsPerLane (s : Schedule) : Nat := s.valuesPerLane / 2

/-- An instance of the kernel: a geometry, a schedule, and the assertions
about both. -/
structure Kernel where
  geometry : Geometry
  schedule : Schedule
  phases : 32 * schedule.valuesPerLane ∣ geometry.inputRows
  quartets : 4 ∣ schedule.rowsPerCta
  tile : schedule.rowsPerCta ∣ 128

/-- What a launch is given, and the two conversions. -/
structure Operands where
  x : Nat → ℚ
  codes : Plane
  scales : Plane
  inverseWeightDivisor : ℚ
  e2m1 : Nat → ℚ
  e4m3 : UInt8 → ℚ

-- ============ the scales

/-- `nvfp4_scale_offset`. The tile number is an `int` there, enough for
fewer than `2 ^ 44` weights. -/
def scaleOffset (g : Geometry) (parentRow group : Nat) : Nat :=
  let mTile := parentRow / 128
  let rowInner := parentRow - mTile * 128
  let scaleTile := group / 4
  let scaleLane := group &&& 3
  let rowMod32 := rowInner &&& 31
  let rowQuartile := rowInner >>> 5
  (mTile * g.scaleTilesPerRow + scaleTile) * 512 + rowMod32 * 16
    + rowQuartile * 4 + scaleLane

/-- `unswizzle_nvfp4_scales` at `[row, group]`: the flat index in the
permuted shape `(n / 128, 4, 32, k_tiles, 4)`, taken back to the stored
shape `(n / 128, k_tiles, 32, 4, 4)`. -/
def unswizzleScales (g : Geometry) (source : Plane) (row group : Nat) : UInt8 :=
  let kTiles := g.scaleTilesPerRow
  let flat := row * g.groupsPerRow + group
  let lane := flat % 4
  let tile := flat / 4 % kTiles
  let rowMod32 := flat / 4 / kTiles % 32
  let quartile := flat / 4 / kTiles / 32 % 4
  let mTile := flat / 4 / kTiles / 32 / 4
  source ((((mTile * kTiles + tile) * 32 + rowMod32) * 4 + quartile) * 4 + lane)

variable (k : Kernel) (o : Operands)

/-- One task of `stage_nvfp4_scales`: a 16-byte load, and a word of it to
each of four rows. -/
def stageTask (mTile rmodBase task : Nat) : Launch.Writes fun _ : Nat => UInt8 :=
  let quartetsPerCta := k.schedule.rowsPerCta / 4
  let scaleTile := task / quartetsPerCta
  let quartet := task - scaleTile * quartetsPerCta
  let sourceOffset := (mTile * k.geometry.scaleTilesPerRow + scaleTile) * 512
    + (rmodBase + quartet) * 16
  (range 4).flatMap fun quartile =>
    let localRow := quartet * 4 + quartile
    (range 4).map fun byte =>
      ⟨localRow * k.geometry.groupsPerRow + scaleTile * 4 + byte,
        o.scales (sourceOffset + 4 * quartile + byte)⟩

/-- `stage_nvfp4_scales`, thread after thread, over what the shared memory
holds. -/
def stageScales (mTile rmodBase : Nat) (shared : Plane) : Plane :=
  let tasks := k.geometry.scaleTilesPerRow * (k.schedule.rowsPerCta / 4)
  match k.schedule.scaleAccess with
  | .stagedRaw =>
    Launch.commit shared ((gridStride tasks k.schedule.threads).flatMap
      (stageTask k o mTile rmodBase))
  | .direct => shared

/-- `load_staged_scale_word`: the first lane of each subgroup loads, and
`__shfl_sync` hands its word to the others. -/
def loadStagedScaleWord (shared : Plane) (localRow phase lane : Nat) : Nat :=
  let subgroupWidth := 64 / k.schedule.valuesPerLane
  let groupsPerPhase := 32 * k.schedule.valuesPerLane / 16
  let word (lane : Nat) : Nat :=
    let subgroupLane := lane &&& (subgroupWidth - 1)
    let groupBase := phase * groupsPerPhase + lane / subgroupWidth * 4
    if subgroupLane = 0 then
      loadU32 shared (localRow * k.geometry.groupsPerRow + groupBase)
    else 0
  word (lane / subgroupWidth * subgroupWidth)

def groupsPerLane (values : Nat) : Nat := if values < 16 then 1 else values / 16
def lanesPerGroup (values : Nat) : Nat := if values < 16 then 16 / values else 1

/-- `coefficients[group]` of `load_nvfp4_coefficients`. -/
def coefficient (shared : Plane) (parentRow localRow phase lane group : Nat) :
    ℚ :=
  let values := k.schedule.valuesPerLane
  let valueBegin := phase * 32 * values + lane * values
  let groupBegin := valueBegin / 16
  match k.schedule.scaleAccess with
  | .stagedRaw =>
    let subgroupLane := lane &&& (64 / values - 1)
    let firstByte := subgroupLane / lanesPerGroup values * groupsPerLane values
    let word := loadStagedScaleWord k shared localRow phase lane
    o.e4m3 (.ofNat (word >>> (8 * (firstByte + group)))) * o.inverseWeightDivisor
  | .direct =>
    o.e4m3 (o.scales (scaleOffset k.geometry parentRow (groupBegin + group)))
      * o.inverseWeightDivisor

-- ============ the rows

/-- One turn of the pair loop of `compute_nvfp4_rows`, for one row. -/
def pairStep (shared : Plane) (parentRow localRow phase lane : Nat)
    (accumulators : Nat → ℚ) (pair : Nat) : Nat → ℚ :=
  let values := k.schedule.valuesPerLane
  let valuesPerPhase := 32 * values
  let codeOffset := parentRow * k.geometry.codeBytesPerRow
    + phase * (valuesPerPhase / 2) + lane * (values / 2)
  let activationIndex := phase * (valuesPerPhase / 2)
    + lane * k.schedule.pairsPerLane + pair
  let group := ((lane * values &&& 15) + pair * 2) / 16
  let word := loadU32 o.codes (codeOffset + 4 * (pair / 4))
  let packed := (word >>> (8 * (pair &&& 3))) % 256
  let coefficient := coefficient k o shared parentRow localRow phase lane group
  let mask := k.schedule.accumulatorChains - 1
  let fma (accumulators : Nat → ℚ) (chain : Nat) (code activation : ℚ) :=
    Function.update accumulators chain
      (code * coefficient * activation + accumulators chain)
  fma (fma accumulators ((2 * pair) &&& mask) (o.e2m1 (packed % 16))
      (o.x (2 * activationIndex)))
    ((2 * pair + 1) &&& mask) (o.e2m1 (packed / 16)) (o.x (2 * activationIndex + 1))

/-- `compute_nvfp4_rows`, for one row: the loops over the rows touch a row's
own accumulators only. -/
def computeRow (shared : Plane) (parentRow localRow lane : Nat) : Nat → ℚ :=
  (range (k.geometry.inputRows / (32 * k.schedule.valuesPerLane))).foldl
    (fun accumulators phase => (range k.schedule.pairsPerLane).foldl
      (pairStep k o shared parentRow localRow phase lane) accumulators)
    fun _ => 0

/-- `total` before the reduction. -/
def laneTotal (shared : Plane) (parentRow localRow lane : Nat) : ℚ :=
  (range k.schedule.accumulatorChains).foldl
    (fun total chain =>
      total + computeRow k o shared parentRow localRow lane chain) 0

-- ============ the kernel

/-- `output.store(row, column, value)`. -/
structure Store (β : Type) where
  row : Nat
  column : Nat
  value : β

def Schedule.ctasPerM128 (s : Schedule) : Nat := 128 / s.rowsPerCta

def mTile (block : Nat) : Nat := block / k.schedule.ctasPerM128

def rmodBase (block : Nat) : Nat :=
  (block - mTile k block * k.schedule.ctasPerM128) * (k.schedule.rowsPerCta / 4)

/-- `parent_rows`, at a row of the block. -/
def parentRow (block flatRow : Nat) : Nat :=
  let rmod := rmodBase k block + flatRow / 4
  let quartile := flatRow &&& 3
  mTile k block * 128 + rmod + quartile * 32

variable {β : Type} (epilogue : Nat → Nat → ℚ → β)

/-- A row of a warp: its lanes reduced, and the store of lane zero. -/
def rowStore (shared : Plane) (block warp localRow : Nat) : Store β :=
  let flatRow := warp * k.schedule.rowsPerWarp + localRow
  let row := parentRow k block flatRow
  let total := warpReduceSum (laneTotal k o shared row flatRow) 0
  ⟨row, 0, epilogue row 0 total⟩

/-- `nvfp4_gemv_kernel`, for one block. -/
def blockStores (shared : Plane) (block : Nat) : List (Store β) :=
  let shared := stageScales k o (mTile k block) (rmodBase k block) shared
  (range k.schedule.warpsPerCta).flatMap fun warp =>
    (range k.schedule.rowsPerWarp).map (rowStore k o epilogue shared block warp)

/-- The grid; `shared` is what each block finds in its shared memory. -/
def gridStores (shared : Nat → Plane) : List (Store β) :=
  (range (k.geometry.outputRows / k.schedule.rowsPerCta)).flatMap fun block =>
    blockStores k o epilogue (shared block) block

-- ============ the reference

/-- The `column`-th nibble of a row, the low one of a byte first. -/
def code (g : Geometry) (codes : Plane) (row column : Nat) : Nat :=
  let byte := (codes (row * g.codeBytesPerRow + column / 2)).toNat
  if column % 2 = 0 then byte % 16 else byte / 16

/-- A row of the product. -/
def rowProduct (g : Geometry) (o : Operands) (row : Nat) : ℚ :=
  (∑ column ∈ Finset.range g.inputRows,
      o.e2m1 (code g o.codes row column)
        * o.e4m3 (unswizzleScales g o.scales row (column / 16)) * o.x column)
    * o.inverseWeightDivisor

end Ginfer.Ops.Nvfp4
