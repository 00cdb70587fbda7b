/-
Replay of Gated DeltaNet records
(ops/linear_attention/gated_delta_net/recurrent.cuh, recurrent.cu,
replay.cpp, core/gdn_replay_records.cpp).

A verification round runs the recurrence over a few columns of which only
a prefix will be accepted. The record form reads the state, writes the
outputs and copies what the transitions consume into records; the fold
repeats the accepted prefix from the records and writes the state back.
The snapshot form writes the state after every column instead.

One kernel body serves all three. A block has four warps; a warp holds
four rows of a head's 128 × 128 state. The arithmetic of a transition and
of the readout is a parameter (`Recurrence`); what the model keeps is
which element of which buffer every warp reads and writes.

The buffers are separate here: the checks of `replay.cpp` that pointers
are aligned and that ranges do not overlap are left out.
-/
import Ginfer.Lib.Launch
import Ginfer.Ops.CausalConv
import Ginfer.Ops.Fastdiv

namespace Ginfer.Ops.GdnReplay

open Ginfer.Lib.Launch List

-- ============ the memory

/-- Rows `dv_base` to `dv_base + 3` of a head's state in the registers of
a warp; column `d` is register `d % 4` of lane `d / 4`. -/
abbrev Tile (F : Type) := Fin 4 → Fin 128 → F

/-- The arithmetic: `apply_gdn_transition` of a raw key, normalised
first, with four values and the gate words `{g, beta}`;
`readout_and_store` of a raw query; and the BF16 zero. -/
structure Recurrence (F B : Type) where
  transition : (Fin 128 → B) → (Fin 4 → B) → F × F → Tile F → Tile F
  readout : Tile F → (Fin 128 → B) → Fin 4 → B
  zero : B

/-- The elements of the buffers that are written: the state pools counted
from their layer 0, the record planes, and the outputs of each layer. -/
inductive Cell where
  | recurrent (a : Nat)
  | conv (a : Nat)
  | keyRecord (a : Nat)
  | valueRecord (a : Nat)
  | gateRecord (a : Nat)
  | convRecord (a : Nat)
  | out (layer a : Nat)
  deriving DecidableEq

/-- FP32 states, pairs of FP32 gates, BF16 everything else. -/
@[reducible]
def Content (F B : Type) : Cell → Type
  | .recurrent _ => F
  | .conv _ => B
  | .keyRecord _ => B
  | .valueRecord _ => B
  | .gateRecord _ => F × F
  | .convRecord _ => B
  | .out _ _ => B

abbrev Memory (F B : Type) := (cell : Cell) → Content F B cell

abbrev Stores (F B : Type) := Writes (Content F B)

-- ============ the heads

/-- `head_map`. -/
structure HeadMap where
  qkHeads : Nat
  valueHeads : Nat
  groupMagic : Fastdiv.Uint3

/-- `head_map::of`; the abort of an invalid group is a default. -/
def HeadMap.of (qkHeads valueHeads : Nat) : HeadMap :=
  ⟨qkHeads, valueHeads, (Fastdiv.initFastdivValues
    (UInt64.ofNat (valueHeads / qkHeads))).getD ⟨0, 0, 0⟩⟩

def HeadMap.groupSize (heads : HeadMap) : Nat :=
  heads.valueHeads / heads.qkHeads

/-- `qk_head` on the device. -/
def HeadMap.qkHead (heads : HeadMap) (valueHead : Nat) : Nat :=
  (Fastdiv.fastdiv (UInt32.ofNat valueHead) heads.groupMagic).toNat

/-- `FoldGeometry`. -/
structure FoldGeometry where
  layers : Nat
  qkHeads : Nat
  valueHeads : Nat
  convChannels : Nat

def foldGeometry48x48 : FoldGeometry := ⟨48, 16, 48, 10240⟩

def foldGeometry30x32 : FoldGeometry := ⟨30, 16, 32, 8192⟩

-- ============ the body

/-- A warp of a launch: `blockIdx` and `threadIdx.y`. -/
@[ext]
structure Warp where
  x : Nat
  y : Nat
  z : Nat
  warp : Nat

/-- The warps of a grid of blocks of four. -/
def grid (x y z : Nat) : List Warp :=
  (range x ×ˢ range y ×ˢ range z ×ˢ range 4).map
    fun (x, y, z, warp) => ⟨x, y, z, warp⟩

/-- `RecurrentCoordinates` of a warp. -/
structure Coordinates where
  batch : Nat
  layer : Nat
  stateTile : Nat
  warp : Nat
  valueHead : Nat
  qkHead : Nat

def Coordinates.dvBase (coord : Coordinates) : Nat :=
  coord.stateTile * 16 + coord.warp * 4

/-- Where a head's state of a slot begins. -/
def stateBase (layerStride valueHeads layer slot head : Nat) : Nat :=
  layer * layerStride + slot * (valueHeads * 128 * 128) + head * 128 * 128

section

variable {F B : Type}

/-- `load_qk_lane` of all lanes and rows. -/
def loadTile (m : Memory F B) (base dvBase : Nat) : Tile F :=
  fun r d => m (.recurrent (base + (dvBase + r) * 128 + d))

/-- `store_qk_lane` of all lanes and rows. -/
def storeTile (base dvBase : Nat) (tile : Tile F) : Stores F B :=
  (finRange 4 ×ˢ finRange 128).map fun (r, d) =>
    ⟨.recurrent (base + (dvBase + r) * 128 + d), tile r d⟩

/-- What the body asks of an access policy; a policy without one of the
stores stores nothing. -/
structure Access (F B : Type) where
  initial : Tile F
  key : Nat → Fin 128 → B
  value : Nat → Fin 4 → B
  gate : Nat → F × F
  storeKey : Nat → (Fin 128 → B) → Stores F B
  storeValue : Nat → (Fin 4 → B) → Stores F B
  storeGate : Nat → F × F → Stores F B
  publish : Nat → Tile F → Stores F B
  finish : Tile F → Stores F B

/-- What the loop of the body carries. -/
structure Loop (F B : Type) where
  state : Tile F
  key : Fin 128 → B
  stores : Stores F B

/-- One column. -/
def bodyStep (recurrence : Recurrence F B) (access : Access F B)
    (valid : Nat) (loop : Loop F B) (token : Nat) : Loop F B :=
  let gate := access.gate token
  let value := access.value token
  let stored := loop.stores ++ access.storeValue token value
    ++ access.storeGate token gate
  let state := recurrence.transition loop.key value gate loop.state
  if token + 1 < valid then
    let key := access.key (token + 1)
    { state := state
      key := key
      stores := stored ++ access.storeKey (token + 1) key
        ++ access.publish token state }
  else
    { state := state
      key := loop.key
      stores := stored ++ access.publish token state }

/-- `recurrent_bf16_body`. -/
def recurrentBody (recurrence : Recurrence F B) (access : Access F B)
    (valid : Nat) : Stores F B :=
  let key := access.key 0
  let loop := (range valid).foldl (bodyStep recurrence access valid)
    { state := access.initial
      key := key
      stores := access.storeKey 0 key }
  loop.stores ++ access.finish loop.state

end

-- ============ the snapshot and record

/-- The inputs of one layer's call. -/
structure Inputs (F B : Type) where
  q : Nat → B
  k : Nat → B
  v : Nat → B
  g : Nat → F
  beta : Nat → F

/-- What both forms are called with, in every layer. -/
structure Call (F B : Type) where
  heads : HeadMap
  width : Nat
  rows : Nat
  /-- Absent when every column is valid. -/
  validColumns : Option (Nat → Nat)
  initialSlots : Nat → Nat
  recurrentStride : Nat
  inputs : Nat → Inputs F B

section

variable {F B : Type} (recurrence : Recurrence F B) (call : Call F B)

/-- `active_columns`. -/
def Call.activeColumns (batch : Nat) : Nat :=
  match call.validColumns with
  | some validColumns => validColumns batch
  | none => call.width

/-- `make_coordinates`. -/
def Call.coordinates (layer : Nat) (warp : Warp) : Coordinates :=
  { batch := warp.y
    layer := layer
    stateTile := warp.z
    warp := warp.warp
    valueHead := warp.x
    qkHead := call.heads.qkHead warp.x }

/-- Element `column * H + head` of a tensor with `H` heads. -/
def Call.headOf (coord : Coordinates) (token heads head : Nat) : Nat :=
  (coord.batch * call.width + token) * heads + head

/-- The parts both access policies share. -/
def Call.access (layer : Nat) (warp : Warp) (m : Memory F B) : Access F B :=
  let coord := call.coordinates layer warp
  let inputs := call.inputs layer
  let h := call.heads.valueHeads
  { initial := loadTile m
      (stateBase call.recurrentStride h layer
        (call.initialSlots coord.batch) coord.valueHead) coord.dvBase
    key := fun token d =>
      inputs.k (call.headOf coord token call.heads.qkHeads coord.qkHead * 128 + d)
    value := fun token r =>
      inputs.v (call.headOf coord token h coord.valueHead * 128
        + coord.dvBase + r)
    gate := fun token =>
      (inputs.g (call.headOf coord token h coord.valueHead),
        inputs.beta (call.headOf coord token h coord.valueHead))
    storeKey := fun _ _ => []
    storeValue := fun _ _ => []
    storeGate := fun _ _ => []
    -- The readout of a column.
    publish := fun token state => (finRange 4).map fun (r : Fin 4) =>
      ⟨.out layer (call.headOf coord token h coord.valueHead * 128
          + coord.dvBase + r),
        recurrence.readout state
          (fun d => inputs.q (call.headOf coord token call.heads.qkHeads
            coord.qkHead * 128 + d)) r⟩
    -- The columns past the valid ones.
    finish := fun _ =>
      (range' (call.activeColumns coord.batch)
        (call.width - call.activeColumns coord.batch) ×ˢ
          finRange 4).map fun (token, r) =>
        ⟨.out layer (call.headOf coord token h coord.valueHead * 128
          + coord.dvBase + r), recurrence.zero⟩ }

/-- `SnapshotAccess`: the state after every column goes to the slot of
the column. -/
def Call.snapshotAccess (snapshotBases : Nat → Nat) (layer : Nat)
    (warp : Warp) (m : Memory F B) : Access F B :=
  let coord := call.coordinates layer warp
  let access := call.access recurrence layer warp m
  { access with
    publish := fun token state =>
      access.publish token state ++
        storeTile
          (stateBase call.recurrentStride call.heads.valueHeads layer
            (snapshotBases coord.batch + token) coord.valueHead)
          coord.dvBase state }

/-- `RecordAccess`, the record planes sliced at the layer's rows: a key
is stored by the first value head of its group. -/
def Call.recordAccess (recordCapacity layer : Nat) (warp : Warp)
    (m : Memory F B) : Access F B :=
  let coord := call.coordinates layer warp
  let h := call.heads.valueHeads
  let outerBegin := layer * recordCapacity
  { call.access recurrence layer warp m with
    storeKey := fun token key =>
      if coord.stateTile = 0 ∧ coord.warp = 0 ∧
          coord.valueHead % call.heads.groupSize = 0 then
        (finRange 128).map fun (d : Fin 128) =>
          ⟨.keyRecord (outerBegin * (128 * call.heads.qkHeads * call.width)
            + call.headOf coord token call.heads.qkHeads coord.qkHead * 128
            + d), key d⟩
      else []
    storeValue := fun token value => (finRange 4).map fun (r : Fin 4) =>
      ⟨.valueRecord (outerBegin * (128 * h * call.width)
        + call.headOf coord token h coord.valueHead * 128 + coord.dvBase
        + r), value r⟩
    storeGate := fun token gate =>
      if coord.stateTile = 0 ∧ coord.warp = 0 then
        [⟨.gateRecord (outerBegin * (h * call.width)
          + call.headOf coord token h coord.valueHead), gate⟩]
      else [] }

/-- `recurrent_snapshot_kernel`. -/
def Call.snapshotKernel (snapshotBases : Nat → Nat) (layer : Nat)
    (warp : Warp) (m : Memory F B) : Stores F B :=
  recurrentBody recurrence
    (call.snapshotAccess recurrence snapshotBases layer warp m)
    (call.activeColumns warp.y)

/-- `recurrent_record_kernel`. -/
def Call.recordKernel (recordCapacity layer : Nat) (warp : Warp)
    (m : Memory F B) : Stores F B :=
  recurrentBody recurrence
    (call.recordAccess recurrence recordCapacity layer warp m)
    (call.activeColumns warp.y)

/-- The warps of both launches. -/
def Call.grid : List Warp := GdnReplay.grid call.heads.valueHeads call.rows 8

/-- `gated_delta_net_snapshot` in one layer. -/
def Call.snapshot (snapshotBases : Nat → Nat) (layer : Nat)
    (order : List Warp) (m : Memory F B) : Memory F B :=
  run (call.snapshotKernel recurrence snapshotBases layer) order m

/-- `gated_delta_net_replay_record` in the first `layers` layers. -/
def Call.record (recordCapacity layers : Nat) (orders : Nat → List Warp)
    (m : Memory F B) : Memory F B :=
  (range layers).foldl
    (fun m layer =>
      run (call.recordKernel recurrence recordCapacity layer) (orders layer) m) m

end

-- ============ the fold

/-- `GdnReplayFoldKernelRow`. -/
structure FoldKernelRow where
  linearStateSlot : Nat
  commitColumns : Nat

/-- The fields of `FoldAccess` that are not buffers. -/
structure Fold where
  geometry : FoldGeometry
  recurrentStride : Nat
  convStride : Nat
  recordCapacity : Nat
  width : Nat
  rows : List FoldKernelRow

namespace Fold

variable {F B : Type} (recurrence : Recurrence F B) (fold : Fold)

/-- `FoldAccess::coordinates`. -/
def coordinates (warp : Warp) : Coordinates :=
  { batch := warp.y
    layer := warp.z >>> 3
    stateTile := warp.z &&& 7
    warp := warp.warp
    valueHead := warp.x
    qkHead := warp.x / (fold.geometry.valueHeads / fold.geometry.qkHeads) }

/-- `rows.row[batch]`; the packed rows past the active ones are zero. -/
def row (batch : Nat) : FoldKernelRow := fold.rows.getD batch ⟨0, 0⟩

def recordOuter (coord : Coordinates) : Nat :=
  coord.layer * fold.recordCapacity + coord.batch

/-- The column of a record. -/
def column (coord : Coordinates) (token : Nat) : Nat :=
  fold.recordOuter coord * fold.width + token

def stateReadBase (coord : Coordinates) : Nat :=
  stateBase fold.recurrentStride fold.geometry.valueHeads coord.layer
    (fold.row coord.batch).linearStateSlot coord.valueHead

/-- Where a channel's history of three values begins. -/
def history (layer slot channel : Nat) : Nat :=
  layer * fold.convStride + slot * (3 * fold.geometry.convChannels) + channel

/-- A value of the channel's recorded columns. -/
def recorded (m : Memory F B) (coord : Coordinates) (channel token : Nat) :
    B :=
  m (.convRecord (fold.recordOuter coord * fold.width
    * fold.geometry.convChannels + channel
    + token * fold.geometry.convChannels))

/-- The history a thread writes. -/
def finalHistory (m : Memory F B) (coord : Coordinates)
    (channel commit : Nat) : CausalConv.Window B :=
  let channels := fold.geometry.convChannels
  let base := fold.history coord.layer (fold.row coord.batch).linearStateSlot
    channel
  if commit = 1 then
    ⟨m (.conv (base + channels)), m (.conv (base + 2 * channels)),
      fold.recorded m coord channel 0⟩
  else if commit = 2 then
    ⟨m (.conv (base + 2 * channels)), fold.recorded m coord channel 0,
      fold.recorded m coord channel 1⟩
  else
    ⟨fold.recorded m coord channel (commit - 3),
      fold.recorded m coord channel (commit - 2),
      fold.recorded m coord channel (commit - 1)⟩

/-- `publish_final_conv_history` of the 32 lanes of a warp. -/
def publishFinalConvHistory (m : Memory F B) (coord : Coordinates)
    (commit : Nat) : Stores F B :=
  let channels := fold.geometry.convChannels
  let tileBlock := coord.valueHead * 8 + coord.stateTile
  if channels / 128 ≤ tileBlock then []
  else
    (range 32).flatMap fun lane =>
      let tid := coord.warp * 32 + lane
      let channel := tileBlock * 128 + tid
      let base := fold.history coord.layer
        (fold.row coord.batch).linearStateSlot channel
      let h := fold.finalHistory m coord channel commit
      [⟨.conv base, h.s0⟩, ⟨.conv (base + channels), h.s1⟩,
        ⟨.conv (base + 2 * channels), h.s2⟩]

/-- `FoldAccess`. -/
def access (warp : Warp) (m : Memory F B) : Access F B :=
  let coord := fold.coordinates warp
  let geometry := fold.geometry
  { initial := loadTile m (fold.stateReadBase coord) coord.dvBase
    key := fun token d =>
      m (.keyRecord ((fold.column coord token * geometry.qkHeads
        + coord.qkHead) * 128 + d))
    value := fun token r =>
      m (.valueRecord ((fold.column coord token * geometry.valueHeads
        + coord.valueHead) * 128 + coord.dvBase + r))
    gate := fun token =>
      m (.gateRecord (fold.column coord token * geometry.valueHeads
        + coord.valueHead))
    storeKey := fun _ _ => []
    storeValue := fun _ _ => []
    storeGate := fun _ _ => []
    publish := fun _ _ => []
    finish := fun state =>
      storeTile (fold.stateReadBase coord) coord.dvBase state ++
        fold.publishFinalConvHistory m coord
          (fold.row coord.batch).commitColumns }

/-- `recurrent_fold_kernel`: a row that commits nothing returns at
once. -/
def kernel (warp : Warp) (m : Memory F B) : Stores F B :=
  let commit := (fold.row warp.y).commitColumns
  if commit = 0 then []
  else recurrentBody recurrence (fold.access warp m) commit

/-- The warps of the launch. -/
def grid : List Warp :=
  GdnReplay.grid fold.geometry.valueHeads fold.rows.length
    (fold.geometry.layers * 8)

end Fold

-- ============ the checks

/-- `GdnReplayRecordSpec`. -/
structure RecordSpec where
  layers : Int
  recordCapacity : Int
  width : Int
  convChannels : Int
  qkHeads : Int
  valueHeads : Int
  keyDim : Int
  valueDim : Int

/-- The pool's specification and strides in
`LinearAttentionStateAllLayersView`. -/
structure StatesView where
  layers : Int
  convChannels : Int
  convWidth : Int
  valueHeads : Int
  valueHeadDim : Int
  keyHeadDim : Int
  slotCount : Int
  convIsBf16 : Bool
  convLayerStrideBytes : Int
  recurrentLayerStrideBytes : Int

/-- `GdnReplayFoldRow`. -/
structure FoldRow where
  linearStateSlot : Int
  commitColumns : Int

/-- `std::invalid_argument`. -/
structure InvalidArgument where
  what : String

/-- The geometry `is_registered_fold_geometry` finds. -/
def registeredFoldGeometry (spec : RecordSpec) : Option FoldGeometry :=
  if spec.layers = 48 ∧ spec.qkHeads = 16 ∧ spec.valueHeads = 48 ∧
      spec.convChannels = 10240 then
    some foldGeometry48x48
  else if spec.layers = 30 ∧ spec.qkHeads = 16 ∧ spec.valueHeads = 32 ∧
      spec.convChannels = 8192 then
    some foldGeometry30x32
  else none

/-- `validate_fold_records`. -/
def validateFoldRecords (spec : RecordSpec) :
    Except InvalidArgument FoldGeometry :=
  match registeredFoldGeometry spec with
  | none => .error ⟨"gdn_replay_fold: unsupported record geometry"⟩
  | some geometry =>
    if spec.recordCapacity ≤ 0 ∨ 8 < spec.recordCapacity ∨ spec.width < 2 ∨
        16 < spec.width ∨ spec.keyDim ≠ 128 ∨ spec.valueDim ≠ 128 then
      .error ⟨"gdn_replay_fold: unsupported record geometry"⟩
    else .ok geometry

/-- `validate_fold_states`. -/
def validateFoldStates (record : RecordSpec) (state : StatesView) :
    Except InvalidArgument Unit :=
  let convBytes := record.convChannels * 3 * state.slotCount * 2
  let recurrentBytes := 128 * 128 * record.valueHeads * state.slotCount * 4
  if state.layers ≠ record.layers ∨
      state.convChannels ≠ record.convChannels ∨ state.convWidth ≠ 3 ∨
      state.valueHeads ≠ record.valueHeads ∨ state.valueHeadDim ≠ 128 ∨
      state.keyHeadDim ≠ 128 ∨ state.slotCount ≤ 0 ∨
      state.convIsBf16 = false then
    .error ⟨"gdn_replay_fold: state geometry does not match records"⟩
  else if state.convLayerStrideBytes ≤ 0 ∨ state.recurrentLayerStrideBytes ≤ 0 ∨
      state.convLayerStrideBytes % 2 ≠ 0 ∨
      state.recurrentLayerStrideBytes % 4 ≠ 0 ∨
      state.convLayerStrideBytes < convBytes ∨
      state.recurrentLayerStrideBytes < recurrentBytes then
    .error ⟨"gdn_replay_fold: invalid state layer stride"⟩
  else .ok ()

/-- The loop of `validate_fold_rows`, with the rows already packed. -/
def validateRows (record : RecordSpec) (state : StatesView) :
    List FoldRow → List FoldRow → Except InvalidArgument (List FoldKernelRow)
  | _, [] => .ok []
  | previous, row :: rest => do
    if row.linearStateSlot < 0 ∨ state.slotCount ≤ row.linearStateSlot then
      .error ⟨"gdn_replay_fold: linear state slot is out of range"⟩
    if row.commitColumns < 0 ∨ record.width < row.commitColumns then
      .error ⟨"gdn_replay_fold: commit extent is out of range"⟩
    if previous.any (·.linearStateSlot = row.linearStateSlot) then
      .error ⟨"gdn_replay_fold: active state slots must be distinct"⟩
    let packed ← validateRows record state (previous ++ [row]) rest
    .ok (⟨row.linearStateSlot.toNat, row.commitColumns.toNat⟩ :: packed)

/-- `validate_fold_rows`. -/
def validateFoldRows (record : RecordSpec) (state : StatesView)
    (rows : List FoldRow) : Except InvalidArgument (List FoldKernelRow) :=
  if rows = [] ∨ record.recordCapacity < rows.length then
    .error ⟨"gdn_replay_fold: active row count is out of range"⟩
  else validateRows record state [] rows

/-- `gdn_replay_fold`, its warps run in some order. -/
def gdnReplayFold {F B : Type} (recurrence : Recurrence F B)
    (record : RecordSpec) (state : StatesView) (rows : List FoldRow)
    (order : List Warp) (m : Memory F B) :
    Except InvalidArgument (Memory F B) := do
  let geometry ← validateFoldRecords record
  validateFoldStates record state
  let packed ← validateFoldRows record state rows
  let fold : Fold :=
    { geometry := geometry
      recurrentStride := (state.recurrentLayerStrideBytes / 4).toNat
      convStride := (state.convLayerStrideBytes / 2).toNat
      recordCapacity := record.recordCapacity.toNat
      width := record.width.toNat
      rows := packed }
  .ok (run (fold.kernel recurrence) order m)

end Ginfer.Ops.GdnReplay
