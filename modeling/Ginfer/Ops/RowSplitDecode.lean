/-
The device readers of the row-split layout (ops/linear/{q4,q5,q6,w8}
row-split storage, ops/kernel/embed_gather.cuh,
ops/launcher/embed_gather.cu, `row_split_weight` of
artifact/typed_binding.cpp).

A reader takes a code out of the base and high planes and multiplies it
by its group's scale. It hands the code on as a number, here in units of
2⁻²⁴ like the binary16 arithmetic some readers go through, and the
scale's word.

Modelled are the decode atoms of the storage headers with the loads that
feed them: the scalar atoms at a group index, the tensor-core atoms
behind the staging of a tile (for W8, which has no atom of its own, the
`dequant_w` of its kernel), the eight-wide atoms at a group index; and
the embedding kernels with their launchers. The pipelines of the linear
kernels, which run on registered shapes only, are left out.
-/
import Ginfer.Artifact.StorageLayouts
import Ginfer.Lib.Binary16
import Ginfer.Lib.Strides
import Mathlib.Data.List.ProdSigma

namespace Ginfer.Ops.RowSplit

open Ginfer.Lib List
open Ginfer.Frontend (Bytes)

-- ============ the planes

/-- A device pointer to bytes. -/
abbrev Plane := Nat → UInt8

/-- The part of `Weight` the readers use. -/
structure Weight where
  qdata : Plane
  qhigh : Plane
  scales : Plane
  rows : Nat
  columns : Nat
  paddedColumns : Nat

/-- `row_split_weight`: the planes of a payload on the device. -/
def rowSplitWeight (payload : Bytes)
    (geometry : Artifact.RowSplitGeometry) : Weight :=
  { qdata := fun i => payload.getD i 0
    qhigh := fun i => payload.getD (geometry.highPlaneOffset.toNat + i) 0
    scales := fun i => payload.getD (geometry.scalePlaneOffset.toNat + i) 0
    rows := geometry.rows.toNat
    columns := geometry.columns.toNat
    paddedColumns := geometry.paddedColumns.toNat }

/-- A load of two bytes. -/
def loadU16 (plane : Plane) (i : Nat) : Nat :=
  (plane i).toNat + 256 * (plane (i + 1)).toNat

/-- A load of four bytes. -/
def loadU32 (plane : Plane) (i : Nat) : Nat :=
  loadU16 plane i + 65536 * loadU16 plane (i + 2)

/-- What a reader multiplies: the code in units of 2⁻²⁴, and the word of
the scale. -/
structure Decoded where
  value : Int
  scale : Nat

/-- `static_cast<float>(q) * scale`. -/
def Decoded.ofInt (q : Int) (scale : Nat) : Decoded := ⟨q * 2 ^ 24, scale⟩

/-- `static_cast<std::int8_t>`. -/
def int8 (byte : Nat) : Int := if byte < 128 then byte else (byte : Int) - 256

-- ============ the pair atoms

/-- The two codes of a byte: `(nibble ^ 8) - 8`. -/
def q4Pair (packed : Nat) : Int × Int :=
  ((((packed &&& 0x0f) ^^^ 0x08 : Nat) : Int) - 0x08,
    (((packed >>> 4) ^^^ 0x08 : Nat) : Int) - 0x08)

def q5Pair (packed highByte lane : Nat) : Int × Int :=
  let shift := (lane &&& 3) * 2
  (((((packed &&& 0x0f) ||| (((highByte >>> shift) &&& 1) <<< 4))
      ^^^ 0x10 : Nat) : Int) - 0x10,
    ((((packed >>> 4) ||| (((highByte >>> (shift + 1)) &&& 1) <<< 4))
      ^^^ 0x10 : Nat) : Int) - 0x10)

def q6Pair (packed highByte lane : Nat) : Int × Int :=
  let shift := (lane &&& 1) * 4
  (((((packed &&& 0x0f) ||| (((highByte >>> shift) &&& 3) <<< 4))
      ^^^ 0x20 : Nat) : Int) - 0x20,
    ((((packed >>> 4) ||| (((highByte >>> (shift + 2)) &&& 3) <<< 4))
      ^^^ 0x20 : Nat) : Int) - 0x20)

/-- Both codes of a pair with their scale. -/
def scaledPair (codes : Int × Int) (scale : Nat) : Decoded × Decoded :=
  (.ofInt codes.1 scale, .ofInt codes.2 scale)

/-- `Q4SimtDecodeAtom::decode_pair` of lane `lane` of a group. -/
def q4SimtPair (codes scales : Plane) (groupIndex lane : Nat) :
    Decoded × Decoded :=
  scaledPair (q4Pair (codes (groupIndex * 32 + lane)).toNat)
    (loadU16 scales (groupIndex * 2))

/-- `Q5ScalarDecodeAtom::decode_pair`. -/
def q5ScalarPair (codes high scales : Plane) (groupIndex lane : Nat) :
    Decoded × Decoded :=
  scaledPair
    (q5Pair (codes (groupIndex * 32 + lane)).toNat
      (high (groupIndex * 8 + (lane >>> 2))).toNat lane)
    (loadU16 scales (groupIndex * 2))

/-- `W8ScalarDecodeAtom::load_pair`; the lanes past the group hold
zero. -/
def w8ScalarPair (codes scales : Plane) (groupIndex lane : Nat) :
    Decoded × Decoded :=
  if 16 ≤ lane then (⟨0, 0⟩, ⟨0, 0⟩)
  else
    scaledPair
      (int8 (codes (groupIndex * 32 + lane * 2)).toNat,
        int8 (codes (groupIndex * 32 + lane * 2 + 1)).toNat)
      (loadU16 scales (groupIndex * 2))

-- ============ the staged tiles

/-- A tile of a tensor-core kernel: its first row and group, and how many
groups of a row it holds. -/
structure Tile where
  row0 : Nat
  group0 : Nat
  groups : Nat

/-- `stage_quant` of a plane with `size` bytes a group: the groups of the
tile's rows, and zeros past the last row. -/
def stage (plane : Plane) (size rows groupsPerRow : Nat) (tile : Tile) :
    Plane := fun i =>
  let rowGroup := i / size
  let localRow := rowGroup / tile.groups
  let group := rowGroup - localRow * tile.groups
  let row := tile.row0 + localRow
  if row < rows then
    plane ((row * groupsPerRow + tile.group0 + group) * size + i % size)
  else 0

/-- The scales of a tile under `ScaleLoad::Pair32`: for every group the
aligned pair of scales it is in, four bytes. -/
def stageScalePairs (scales : Plane) (rows groupsPerRow : Nat)
    (tile : Tile) : Plane := fun i =>
  let rowGroup := i / 4
  let localRow := rowGroup / tile.groups
  let group := rowGroup - localRow * tile.groups
  let row := tile.row0 + localRow
  let scaleGroup := tile.group0 + group
  let alignedGroup := scaleGroup / 2 * 2
  if row < rows then
    if alignedGroup + 1 < groupsPerRow then
      scales ((row * groupsPerRow + alignedGroup) * 2 + i % 4)
    else if i % 4 < 2 then
      scales ((row * groupsPerRow + scaleGroup) * 2 + i % 4)
    else 0
  else 0

/-- `ScaleLoad`. -/
inductive ScaleLoad where
  | scalar16
  | pair32

/-- The scale `decode_weight` points the atom at. -/
def stagedScale (mode : ScaleLoad) (scales : Plane)
    (rows groupsPerRow : Nat) (tile : Tile) (localRow group : Nat) : Nat :=
  let stagedGroup := localRow * tile.groups + group
  match mode with
  | .scalar16 =>
    loadU16 (stage scales 2 rows groupsPerRow tile) (stagedGroup * 2)
  | .pair32 =>
    loadU16 (stageScalePairs scales rows groupsPerRow tile)
      (stagedGroup * 4 + (tile.group0 + group) % 2 * 2)

section

variable (w : Weight) (mode : ScaleLoad) (tile : Tile) (localRow group lane : Nat)

/-- `Q4MmaDecodeAtom::decode_pair` of a staged group. -/
def q4MmaPair : Decoded × Decoded :=
  let groupsPerRow := w.paddedColumns / 64
  let stagedGroup := localRow * tile.groups + group
  scaledPair
    (q4Pair (stage w.qdata 32 w.rows groupsPerRow tile
      (stagedGroup * 32 + lane)).toNat)
    (stagedScale mode w.scales w.rows groupsPerRow tile localRow group)

/-- `Q5MmaDecodeAtom::decode_pair`. -/
def q5MmaPair : Decoded × Decoded :=
  let groupsPerRow := w.paddedColumns / 64
  let stagedGroup := localRow * tile.groups + group
  scaledPair
    (q5Pair
      (stage w.qdata 32 w.rows groupsPerRow tile (stagedGroup * 32 + lane)).toNat
      (stage w.qhigh 8 w.rows groupsPerRow tile
        (stagedGroup * 8 + (lane >>> 2))).toNat lane)
    (stagedScale mode w.scales w.rows groupsPerRow tile localRow group)

/-- `Q6MmaDecodeAtom::decode_pair`. -/
def q6MmaPair : Decoded × Decoded :=
  let groupsPerRow := w.paddedColumns / 64
  let stagedGroup := localRow * tile.groups + group
  scaledPair
    (q6Pair
      (stage w.qdata 32 w.rows groupsPerRow tile (stagedGroup * 32 + lane)).toNat
      (stage w.qhigh 16 w.rows groupsPerRow tile
        (stagedGroup * 16 + (lane >>> 1))).toNat lane)
    (stagedScale mode w.scales w.rows groupsPerRow tile localRow group)

end

/-- A tile of `w8_rowsplit_gemm_mma_kernel`: the weight row of each of
its rows, the k-tile and the groups of one. -/
structure W8Tile where
  weightRow : Nat → Nat
  kt : Nat
  wide : Bool

/-- `GROUPS`: 64 or 128 columns a k-tile. -/
def W8Tile.groups (tile : W8Tile) : Nat := if tile.wide then 4 else 2

/-- `SCALE_CACHE_TILES`. -/
def W8Tile.scaleTiles (tile : W8Tile) : Nat := 8 / tile.groups

section

variable (w : Weight) (tile : W8Tile) (localRow gg halfLane : Nat)

/-- Byte `i` of a row of `Cr`, by `stage_w`. -/
def w8StagedCode (i : Nat) : UInt8 :=
  let kg := w.paddedColumns / 32
  let row := tile.weightRow localRow
  if row < w.rows then
    w.qdata ((row * kg + tile.kt * tile.groups) * 32 + i)
  else 0

/-- Byte `i` of a row of `Sr`: the scales of eight groups, staged with
the first of the k-tiles they serve. -/
def w8StagedScale (i : Nat) : UInt8 :=
  let kg := w.paddedColumns / 32
  let row := tile.weightRow localRow
  let g0 := tile.kt / tile.scaleTiles * tile.scaleTiles * tile.groups
  let validScales := if row < w.rows ∧ g0 < kg then min 8 (kg - g0) else 0
  if i < validScales * 2 then
    w.scales ((row * kg + min g0 (kg - 1)) * 2 + i)
  else 0

/-- The pair of `dequant_w` in lane `halfLane` of group `gg`. -/
def w8MmaPair : Decoded × Decoded :=
  let scalePairOffset := tile.kt % tile.scaleTiles * tile.groups * 2
  let staged : Plane := w8StagedScale w tile localRow
  let scalePair := loadU32 staged (scalePairOffset + gg / 2 * 4)
  let scaleBits := (scalePair >>> ((gg &&& 1) * 16)) &&& 0xffff
  let packed := loadU16 (w8StagedCode w tile localRow) (gg * 32 + halfLane * 2)
  scaledPair (int8 (packed &&& 0xff), int8 (packed >>> 8)) scaleBits

end

-- ============ the eight-wide atoms

/-- Weight `item` of the two halves a loop over pairs subtracts: pair
`item` in the lower half, `item - 4` in the upper. -/
def halfOf (bits : Nat → Nat) (bias item : Nat) : Int :=
  if item < 4 then Binary16.sub (bits item % 2 ^ 16) bias
  else Binary16.sub (bits (item - 4) / 2 ^ 16) bias

/-- `Q4SimtDecodeAtom::decode_eight`. -/
def q4Eight (packed scaleBits item : Nat) : Decoded :=
  let word := packed ^^^ 0x88888888
  let bits := fun pair =>
    ((word >>> (4 * pair)) &&& 0x000f000f) ||| 0x64006400
  ⟨halfOf bits 0x6408 item, scaleBits⟩

/-- `Q5SimtDecodeAtom::decode_eight`. -/
def q5Eight (packed highByte scaleBits item : Nat) : Decoded :=
  let high := highByte ^^^ 0xff
  let bits := fun pair =>
    (((packed >>> (4 * pair)) &&& 0x000f000f) ||| 0x64006400) |||
      ((((high >>> pair) &&& 1) <<< 4) |||
        (((high >>> (pair + 4)) &&& 1) <<< 20))
  ⟨halfOf bits 0x6410 item, scaleBits⟩

/-- `Q6SimtDecodeAtom::decode_eight`. -/
def q6Eight (packed highWord scaleBits item : Nat) : Decoded :=
  let high := highWord ^^^ 0xaaaa
  let bits := fun pair =>
    (((packed >>> (4 * pair)) &&& 0x000f000f) ||| 0x64006400) |||
      ((((high >>> (2 * pair)) &&& 3) <<< 4) |||
        (((high >>> (2 * pair + 8)) &&& 3) <<< 20))
  ⟨halfOf bits 0x6420 item, scaleBits⟩

/-- `signed_nibble<4 * item>`: `bfe.s32` of four bits. -/
def signedNibble (packed item : Nat) : Int :=
  let field := (packed >>> (4 * item)) &&& 0x0f
  if field < 8 then field else (field : Int) - 16

section

variable (w : Weight) (groupIndex laneInGroup item : Nat)

/-- The word `dot_two_rows` loads, decoded by `decode_eight`. -/
def q4LoadEight : Decoded :=
  q4Eight (loadU32 w.qdata (groupIndex * 32 + laneInGroup * 4))
    (loadU16 w.scales (groupIndex * 2)) item

/-- The same word decoded by `fma_eight`. -/
def q4FmaEight : Decoded :=
  .ofInt
    (signedNibble (loadU32 w.qdata (groupIndex * 32 + laneInGroup * 4)) item)
    (loadU16 w.scales (groupIndex * 2))

/-- `Q5Codec::load_eight`. -/
def q5LoadEight : Decoded :=
  q5Eight (loadU32 w.qdata (groupIndex * 32 + laneInGroup * 4))
    (w.qhigh (groupIndex * 8 + laneInGroup)).toNat
    (loadU16 w.scales (groupIndex * 2)) item

/-- `Q6Codec::load_eight`. -/
def q6LoadEight : Decoded :=
  q6Eight (loadU32 w.qdata (groupIndex * 32 + laneInGroup * 4))
    (loadU16 w.qhigh (groupIndex * 16 + laneInGroup * 2))
    (loadU16 w.scales (groupIndex * 2)) item

end

-- ============ the readers

/-- The weight of a pair that belongs to an item of its group. -/
def pick (pair : Decoded × Decoded) (item : Nat) : Decoded :=
  if item % 2 = 0 then pair.1 else pair.2

/-- The ways the atoms are used; a tensor-core atom with the tile its
kernel has staged. -/
inductive Reader where
  | q4Simt
  | q4Eight
  | q4Fma
  | q4Mma (mode : ScaleLoad) (tile : Tile)
  | q5Scalar
  | q5Eight
  | q5Mma (mode : ScaleLoad) (tile : Tile)
  | q6Eight
  | q6Mma (mode : ScaleLoad) (tile : Tile)
  | w8Scalar
  | w8Mma (tile : W8Tile) (localRow : Nat)

/-- The format a reader decodes. -/
def Reader.format : Reader → Artifact.NumericFormat
  | .q4Simt | .q4Eight | .q4Fma | .q4Mma _ _ => .q4g64F16s
  | .q5Scalar | .q5Eight | .q5Mma _ _ => .q5g64F16s
  | .q6Eight | .q6Mma _ _ => .q6g64F16s
  | .w8Scalar | .w8Mma _ _ => .w8g32F16s

/-- Whether the reader's tile holds the weight. -/
def Reader.Holds (row column : Nat) : Reader → Prop
  | .q4Mma _ tile | .q5Mma _ tile | .q6Mma _ tile =>
    tile.row0 ≤ row ∧ tile.group0 ≤ column / 64 ∧
      column / 64 < tile.group0 + tile.groups
  | .w8Mma tile localRow =>
    tile.weightRow localRow = row ∧ column / 32 / tile.groups = tile.kt
  | _ => True

/-- The weight of a row and column by each reader: lane and item of the
column in its group. -/
def Reader.decode (w : Weight) (row column : Nat) : Reader → Decoded
  | .q4Simt =>
    pick (q4SimtPair w.qdata w.scales
      (row * (w.paddedColumns / 64) + column / 64) (column % 64 / 2))
      (column % 64)
  | .q4Eight =>
    q4LoadEight w (row * (w.paddedColumns / 64) + column / 64)
      (column % 64 / 8) (column % 8)
  | .q4Fma =>
    q4FmaEight w (row * (w.paddedColumns / 64) + column / 64)
      (column % 64 / 8) (column % 8)
  | .q4Mma mode tile =>
    pick (q4MmaPair w mode tile (row - tile.row0)
      (column / 64 - tile.group0) (column % 64 / 2)) (column % 64)
  | .q5Scalar =>
    pick (q5ScalarPair w.qdata w.qhigh w.scales
      (row * (w.paddedColumns / 64) + column / 64) (column % 64 / 2))
      (column % 64)
  | .q5Eight =>
    q5LoadEight w (row * (w.paddedColumns / 64) + column / 64)
      (column % 64 / 8) (column % 8)
  | .q5Mma mode tile =>
    pick (q5MmaPair w mode tile (row - tile.row0)
      (column / 64 - tile.group0) (column % 64 / 2)) (column % 64)
  | .q6Eight =>
    q6LoadEight w (row * (w.paddedColumns / 64) + column / 64)
      (column % 64 / 8) (column % 8)
  | .q6Mma mode tile =>
    pick (q6MmaPair w mode tile (row - tile.row0)
      (column / 64 - tile.group0) (column % 64 / 2)) (column % 64)
  | .w8Scalar =>
    pick (w8ScalarPair w.qdata w.scales
      (row * (w.paddedColumns / 32) + column / 32) (column % 32 / 2))
      (column % 32)
  | .w8Mma tile localRow =>
    pick (w8MmaPair w tile localRow (column / 32 % tile.groups)
      (column % 32 / 2)) (column % 32)

-- ============ embeddings

/-- `unpack_q6_code`. -/
def unpackQ6Code (nibble high : Plane) (index : Nat) : Int :=
  let lowByte := (nibble (index >>> 1)).toNat
  let low := if index &&& 1 ≠ 0 then lowByte >>> 4 else lowByte &&& 0x0f
  let highPos := index * 2
  let highBits :=
    ((high (highPos >>> 3)).toNat >>> (highPos &&& 7)) &&& 0x03
  let u := low ||| (highBits <<< 4)
  if u &&& 0x20 ≠ 0 then (u : Int) - 64 else u

/-- The two bytes of a scale as the embedding kernels put them
together. -/
def scaleBits (scales : Plane) (groupIndex : Nat) : Nat :=
  (scales (groupIndex * 2)).toNat |||
    ((scales (groupIndex * 2 + 1)).toNat <<< 8)

/-- A pointer moved on. -/
def Plane.advance (plane : Plane) (offset : Nat) : Plane :=
  fun i => plane (offset + i)

/-- The Q6 weight of a group as both Q6 kernels decode it. -/
def q6GroupWeight (w : Weight) (groupIndex lane : Nat) : Decoded :=
  .ofInt
    (unpackQ6Code (Plane.advance w.qdata (groupIndex * 32))
      (Plane.advance w.qhigh (groupIndex * 16)) lane)
    (scaleBits w.scales groupIndex)

def w8GroupWeight (w : Weight) (groupIndex lane : Nat) : Decoded :=
  .ofInt (int8 (w.qdata (groupIndex * 32 + lane)).toNat)
    (scaleBits w.scales groupIndex)

/-- The launcher's grid for `n` outputs in blocks of 128. -/
def gridFor (n : Nat) : Nat := max 1 ((n + 128 - 1) / 128)

/-- What a kernel writes: the output index and what is stored there. -/
abbrev Writes := List (Nat × Decoded)

section

variable (w : Weight) (ids : Nat → Nat) (d tokens : Nat)

/-- The grid-stride loop of the generic kernels. -/
def gatherGeneric (groupSize : Nat)
    (weight : Weight → Nat → Nat → Decoded) : Writes :=
  let kg := w.paddedColumns / groupSize
  let n := d * tokens
  (gridStride n (gridFor n * 128)).map fun i =>
    let t := i / d
    let k := i - t * d
    let row := ids t
    let g := k / groupSize
    let lane := k - g * groupSize
    (i, weight w (row * kg + g) lane)

/-- `embed_gather_q6_kernel`. -/
def embedGatherQ6 : Writes := gatherGeneric w ids d tokens 64 q6GroupWeight

/-- `embed_gather_w8_kernel`. -/
def embedGatherW8 : Writes := gatherGeneric w ids d tokens 32 w8GroupWeight

/-- `embed_gather_q6_grouped_kernel` over `grid_for_q6_grouped` blocks of
two groups; the scale is loaded by the first lane of each warp. -/
def embedGatherQ6Grouped : Writes :=
  let kg := d / 64
  let groupBlocks := (kg + 2 - 1) / 2
  (range (max 1 (tokens * groupBlocks)) ×ˢ range 128).filterMap
    fun (block, thread) =>
      let t := block / groupBlocks
      let blockGroup := block - t * groupBlocks
      let groupSlot := thread / 64
      let lane := thread - groupSlot * 64
      let g := blockGroup * 2 + groupSlot
      if kg ≤ g then none
      else some (t * d + g * 64 + lane, q6GroupWeight w (ids t * kg + g) lane)

/-- `embed_gather_q6_launch`. -/
def embedGatherQ6Launch : Writes :=
  if d = w.paddedColumns ∧ d % 64 = 0 then
    embedGatherQ6Grouped w ids d tokens
  else embedGatherQ6 w ids d tokens

/-- `embed_gather_w8_grouped_2048_kernel`: a block of 32 a group. -/
def embedGatherW8Grouped2048 : Writes :=
  (range (tokens * 64) ×ˢ range 32).map fun (block, thread) =>
    let t := block / 64
    let g := block - t * 64
    (t * 2048 + g * 32 + thread, w8GroupWeight w (ids t * 64 + g) thread)

/-- `embed_gather_w8_row_2048_kernel`: eight values a thread, out of two
words. -/
def embedGatherW8Row2048 : Writes :=
  (range tokens ×ˢ range 256 ×ˢ range 2 ×ˢ range 2
      ×ˢ range 2).map
    fun (t, tid, wordIndex, pair, half) =>
      let k := tid * 8
      let scale := scaleBits w.scales (ids t * 64 + k / 32)
      let word := loadU32 w.qdata (ids t * 2048 + k + wordIndex * 4)
      let shift := pair * 16
      (t * 2048 + k + (wordIndex * 2 + pair) * 2 + half,
        .ofInt (int8 ((word >>> (shift + half * 8)) &&& 0xff)) scale)

/-- `W8EmbedRoute`. -/
inductive W8EmbedRoute where
  | auto
  | grouped
  | row
  deriving DecidableEq

/-- `embed_gather_w8_2048_launch`. -/
def embedGatherW8_2048Launch (route : W8EmbedRoute) : Writes :=
  let route :=
    if route = .auto then
      if tokens ≤ 6 then W8EmbedRoute.grouped else .row
    else route
  if route = .grouped then embedGatherW8Grouped2048 w ids tokens
  else embedGatherW8Row2048 w ids tokens

/-- `embed_gather_w8_launch`. -/
def embedGatherW8Launch : Writes :=
  if d = 2048 ∧ w.paddedColumns = 2048 then
    embedGatherW8_2048Launch w ids tokens .auto
  else embedGatherW8 w ids d tokens

/-- The Q6 branch of `embedding`; the output rows are checked to be the
table's columns, and no token launches nothing. -/
def embeddingQ6 : Writes :=
  if tokens = 0 then [] else embedGatherQ6Launch w ids w.columns tokens

/-- The W8 branch. -/
def embeddingW8 : Writes :=
  if tokens = 0 then [] else embedGatherW8Launch w ids w.columns tokens

end

end Ginfer.Ops.RowSplit
