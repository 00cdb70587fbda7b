/-
The causal convolution of the linear-attention layers
(ops/kernel/causal_conv1d.cuh, ops/launcher/causal_conv1d.cu).

Ten kernels compute the same: every channel is convolved over four columns
of its own, and the last three columns stay behind as its state. They
differ in what a thread owns (a column of a channel, or a channel with all
its columns), in where the state is read and written (in place, from one
slot to another, or a snapshot slot for every column), and in what they do
with the columns of a row that are not valid.

The four-tap product with SiLU and rounding is a parameter; what the model
keeps is which element every thread reads and writes. States lie in a pool
of slots of three columns; the state form that reads one tensor and writes
another is one over two slots. Input and weights are never written.
-/
import Ginfer.Lib.Launch
import Ginfer.Lib.Strides
import Ginfer.Ops.GqaAttentionDecode
import Mathlib.Data.List.ProdSigma

namespace Ginfer.Ops.CausalConv

open Ginfer.Lib List
open Ginfer.Lib.Launch

-- ============ the memory

/-- The elements that are written: those of the state pool and those of the
output. -/
inductive Cell where
  | state (a : Nat)
  | out (a : Nat)
  deriving DecidableEq

abbrev Memory (B : Type) := Cell → B

abbrev Stores (B : Type) := Writes fun _ : Cell => B

/-- What a launch is given: the channels, the weights and the input, and
the arithmetic (`silu` of the sum of four products, and the BF16 zero). -/
structure Op (B : Type) where
  silu : (w0 w1 w2 w3 x0 x1 x2 x3 : B) → B
  zero : B
  C : Nat
  weight : Nat → B
  x : Nat → B

/-- The three columns before the next one, oldest first. -/
@[ext]
structure Window (B : Type) where
  s0 : B
  s1 : B
  s2 : B

/-- A launch: its programs, and the stores of each. A program owns what no
other reads or writes: a thread, or the threads of a block that share the
history of a channel. -/
structure Kernel (B : Type) where
  programs : List (Nat × Nat)
  body : Nat × Nat → Memory B → Stores B

/-- `grid_for`. -/
def gridFor (n block : Nat) : Nat := max 1 (divUp n block)

/-- The channels of a grid-stride loop, in blocks of 256. -/
def stridePrograms (C : Nat) : List (Nat × Nat) :=
  (gridStride C (gridFor C 256 * 256)).map fun c => (0, c)

/-- One thread for a channel, for every row of the batch. -/
def channelPrograms (batch C block : Nat) : List (Nat × Nat) :=
  range batch ×ˢ range (gridFor C block * block)

/-- `kCausalConvChannelTile`. -/
def causalConvChannelTile : Nat := 32

section

variable {B : Type} (op : Op B)

/-- `slot_stride`. -/
def Op.slotStride : Nat := op.C * 3

/-- The window of a channel in a slot. -/
def Op.load (m : Memory B) (slot c : Nat) : Window B where
  s0 := m (.state (slot * op.slotStride + c))
  s1 := m (.state (slot * op.slotStride + op.C + c))
  s2 := m (.state (slot * op.slotStride + 2 * op.C + c))

/-- Its stores. -/
def Op.store (slot c : Nat) (w : Window B) : Stores B :=
  [⟨.state (slot * op.slotStride + c), w.s0⟩,
    ⟨.state (slot * op.slotStride + op.C + c), w.s1⟩,
    ⟨.state (slot * op.slotStride + 2 * op.C + c), w.s2⟩]

/-- The four taps of a channel with its weights. -/
def Op.taps (c : Nat) (x0 x1 x2 x3 : B) : B :=
  op.silu (op.weight c) (op.weight (op.C + c)) (op.weight (2 * op.C + c))
    (op.weight (3 * op.C + c)) x0 x1 x2 x3

-- ============ the prefill

/-- `causal_conv1d_prefill_kernel`, for the state in a slot. -/
def prefillKernel (input T : Nat) : Kernel B where
  programs := range (max 1 (divUp op.C 256 * T)) ×ˢ range 256
  body := fun (block, thread) m =>
    let cBlocks := divUp op.C 256
    let t := block / cBlocks
    let c := (block - t * cBlocks) * 256 + thread
    let state := fun s => m (.state (input * op.slotStride + s * op.C + c))
    if T ≤ t ∨ op.C ≤ c then []
    else
      let x0 := if 3 ≤ t then op.x ((t - 3) * op.C + c) else state t
      let x1 := if 2 ≤ t then op.x ((t - 2) * op.C + c) else state (t + 1)
      let x2 := if 1 ≤ t then op.x ((t - 1) * op.C + c) else state (t + 2)
      let x3 := op.x (t * op.C + c)
      [⟨.out (t * op.C + c), op.taps c x0 x1 x2 x3⟩]

/-- `causal_conv1d_prefill_pairs_kernel`: a thread for two channels. A pair
of an array of pairs is two neighbouring elements. -/
def prefillPairsKernel (input T : Nat) : Kernel B where
  programs := range (max 1 (divUp (op.C / 2) 256 * T)) ×ˢ range 256
  body := fun (block, thread) m =>
    let c2 := op.C / 2
    let cBlocks := divUp c2 256
    let t := block / cBlocks
    let p := (block - t * cBlocks) * 256 + thread
    if T ≤ t ∨ c2 ≤ p then []
    else
      [0, 1].flatMap fun half =>
        let x := fun pair => op.x (2 * pair + half)
        let weight := fun pair => op.weight (2 * pair + half)
        let state := fun pair =>
          m (.state (input * op.slotStride + (2 * pair + half)))
        let x0 := if 3 ≤ t then x ((t - 3) * c2 + p) else state (t * c2 + p)
        let x1 := if 2 ≤ t then x ((t - 2) * c2 + p)
          else state ((t + 1) * c2 + p)
        let x2 := if 1 ≤ t then x ((t - 1) * c2 + p)
          else state ((t + 2) * c2 + p)
        let x3 := x (t * c2 + p)
        [⟨.out (2 * (t * c2 + p) + half),
          op.silu (weight p) (weight (c2 + p)) (weight (2 * c2 + p))
            (weight (3 * c2 + p)) x0 x1 x2 x3⟩]

/-- `causal_conv1d_prefill_state_kernel`: the window behind `T` columns. -/
def prefillStateKernel (input output T : Nat) : Kernel B where
  programs := stridePrograms op.C
  body := fun (_, c) m =>
    let old := op.load m input c
    (range 3).map fun s =>
      let seqPos := T + s
      let v :=
        if seqPos = 0 then old.s0
        else if seqPos = 1 then old.s1
        else if seqPos = 2 then old.s2
        else op.x ((seqPos - 3) * op.C + c)
      ⟨.state (output * op.slotStride + s * op.C + c), v⟩

-- ============ the decode

/-- The body of the decode kernels, from one slot to another. -/
def decodeBody (input output c : Nat) (m : Memory B) : Stores B :=
  let w := op.load m input c
  let x0 := op.x c
  ⟨.out c, op.taps c w.s0 w.s1 w.s2 x0⟩ :: op.store output c ⟨w.s1, w.s2, x0⟩

/-- `causal_conv1d_decode_kernel`, in place. -/
def decodeKernel (slot : Nat) : Kernel B where
  programs := stridePrograms op.C
  body := fun (_, c) => decodeBody op slot slot c

/-- `causal_conv1d_decode_distinct_kernel`. -/
def decodeDistinctKernel (input output : Nat) : Kernel B where
  programs := stridePrograms op.C
  body := fun (_, c) => decodeBody op input output c

/-- `causal_conv1d_snapshot_decode_kernel`. -/
def snapshotDecodeKernel (initial base : Nat) : Kernel B where
  programs := stridePrograms op.C
  body := fun (_, c) => decodeBody op initial base c

-- ============ the serial forms

/-- What the loops over columns carry. -/
structure Loop (B : Type) where
  window : Window B
  stores : Stores B

/-- A column of a loop, which publishes the window it leaves. -/
def sequenceStep (rowBase c : Nat) (publish : Nat → Window B → Stores B)
    (loop : Loop B) (t : Nat) : Loop B :=
  let outIdx := rowBase + t * op.C + c
  let x0 := op.x outIdx
  let s := loop.window
  let out := op.taps c s.s0 s.s1 s.s2 x0
  let window : Window B := ⟨s.s1, s.s2, x0⟩
  ⟨window, loop.stores ++ ⟨.out outIdx, out⟩ :: publish t window⟩

/-- `causal_conv1d_sequence_kernel`. -/
def sequenceKernel (input output T : Nat) : Kernel B where
  programs := channelPrograms 1 op.C (if T = 1 then 256 else 32)
  body := fun (_, c) m =>
    if op.C ≤ c then []
    else
      let loop := (range T).foldl (sequenceStep op 0 c fun _ _ => [])
        ⟨op.load m input c, []⟩
      loop.stores ++ op.store output c loop.window

/-- `causal_conv1d_sequence_snapshot_kernel`. -/
def sequenceSnapshotKernel (initial base T : Nat) : Kernel B where
  programs := channelPrograms 1 op.C 32
  body := fun (_, c) m =>
    if op.C ≤ c then []
    else
      ((range T).foldl (sequenceStep op 0 c fun t => op.store (base + t) c)
        ⟨op.load m initial c, []⟩).stores

/-- A batch of rows. Without a list of valid columns all are valid. -/
structure Batch where
  batch : Nat
  width : Nat
  validColumns : Option (Nat → Nat)
  initialStateSlots : Nat → Nat
  snapshotBaseSlots : Nat → Nat

/-- `valid`. -/
def Batch.valid (b : Batch) (row : Nat) : Nat :=
  match b.validColumns with
  | some validColumns => validColumns row
  | none => b.width

/-- `causal_conv1d_batched_sequence_snapshot_kernel`. -/
def batchedSequenceSnapshotKernel (b : Batch) : Kernel B where
  programs := channelPrograms b.batch op.C (if b.width = 1 then 256 else 32)
  body := fun (row, c) m =>
    if op.C ≤ c then []
    else
      let rowBase := row * b.width * op.C
      ((range b.width).foldl (fun loop column =>
        if b.valid row ≤ column then
          { loop with stores := loop.stores ++
            [⟨.out (rowBase + column * op.C + c), op.zero⟩] }
        else
          sequenceStep op rowBase c
            (fun t => op.store (b.snapshotBaseSlots row + t) c) loop column)
        ⟨op.load m (b.initialStateSlots row) c, []⟩).stores

-- ============ the parallel forms

/-- The column `p` of the input, or of the history before it. -/
def Op.column (history : Nat → B) (rowBase c : Nat) (p : Int) : B :=
  if p < 0 then history (p + 3).toNat
  else op.x (rowBase + p.toNat * op.C + c)

/-- The output of the thread of a column. -/
def Op.smallt (history : Nat → B) (rowBase c t : Nat) : B :=
  op.taps c (op.column history rowBase c (t - 3))
    (op.column history rowBase c (t - 2))
    (op.column history rowBase c (t - 1)) (op.x (rowBase + t * op.C + c))

/-- The history of a channel, read before the barrier. -/
def Op.history (m : Memory B) (slot c : Nat) (s : Nat) : B :=
  m (.state (slot * op.slotStride + s * op.C + c))

/-- `causal_conv1d_smallt_kernel`. -/
def smalltKernel (input output T : Nat) : Kernel B where
  programs := channelPrograms 1 op.C causalConvChannelTile
  body := fun (_, c) m =>
    if op.C ≤ c then []
    else
      let history := op.history m input c
      (range T).flatMap fun t =>
        ⟨.out (t * op.C + c), op.smallt history 0 c t⟩ ::
          if t = 0 then
            (range 3).map fun s =>
              ⟨.state (output * op.slotStride + s * op.C + c),
                op.column history 0 c (T - 3 + s)⟩
          else []

/-- `causal_conv1d_snapshot_smallt_kernel`. -/
def snapshotSmalltKernel (initial base T : Nat) : Kernel B where
  programs := channelPrograms 1 op.C causalConvChannelTile
  body := fun (_, c) m =>
    if op.C ≤ c then []
    else
      let history := op.history m initial c
      (range T).flatMap fun t =>
        ⟨.out (t * op.C + c), op.smallt history 0 c t⟩ ::
          (range 3).map fun s =>
            ⟨.state ((base + t) * op.slotStride + s * op.C + c),
              op.column history 0 c (t - 2 + s)⟩

/-- `causal_conv1d_batched_snapshot_smallt_kernel`. -/
def batchedSnapshotSmalltKernel (b : Batch) : Kernel B where
  programs := channelPrograms b.batch op.C causalConvChannelTile
  body := fun (row, c) m =>
    if op.C ≤ c then []
    else
      let history := op.history m (b.initialStateSlots row) c
      let rowBase := row * b.width * op.C
      (range b.width).flatMap fun column =>
        if b.valid row ≤ column then
          [⟨.out (rowBase + column * op.C + c), op.zero⟩]
        else
          ⟨.out (rowBase + column * op.C + c),
              op.smallt history rowBase c column⟩ ::
            (range 3).map fun s =>
              ⟨.state ((b.snapshotBaseSlots row + column) * op.slotStride
                  + s * op.C + c),
                op.column history rowBase c (column - 2 + s)⟩

end

-- ============ the forms

/-- The forms, with the slots and the columns they are launched for. -/
inductive Form where
  | prefill (pairs : Bool) (input output T : Nat)
  | sequence (input output T : Nat)
  | smallt (input output T : Nat)
  | decode (slot : Nat)
  | decodeDistinct (input output : Nat)
  | snapshotDecode (initial base : Nat)
  | sequenceSnapshot (initial base T : Nat)
  | snapshotSmallt (initial base T : Nat)
  | batchedSequenceSnapshot (b : Batch)
  | batchedSnapshotSmallt (b : Batch)

section

variable {B : Type}

/-- The launches of a form. -/
def Form.kernels (op : Op B) : Form → List (Kernel B)
  | .prefill pairs input output T =>
    [if pairs then prefillPairsKernel op input T
      else prefillKernel op input T, prefillStateKernel op input output T]
  | .sequence input output T => [sequenceKernel op input output T]
  | .smallt input output T => [smalltKernel op input output T]
  | .decode slot => [decodeKernel op slot]
  | .decodeDistinct input output => [decodeDistinctKernel op input output]
  | .snapshotDecode initial base => [snapshotDecodeKernel op initial base]
  | .sequenceSnapshot initial base T =>
    [sequenceSnapshotKernel op initial base T]
  | .snapshotSmallt initial base T =>
    [snapshotSmalltKernel op initial base T]
  | .batchedSequenceSnapshot b => [batchedSequenceSnapshotKernel op b]
  | .batchedSnapshotSmallt b => [batchedSnapshotSmalltKernel op b]

/-- A launch, whose programs run in some order. -/
def Kernel.Runs (kernel : Kernel B) (m m' : Memory B) : Prop :=
  ∃ order : List (Nat × Nat), order.Perm kernel.programs
    ∧ m' = run (β := fun _ => B) kernel.body order m

/-- Launches, one behind the other. -/
def Runs : List (Kernel B) → Memory B → Memory B → Prop
  | [], m, m' => m' = m
  | kernel :: rest, m, m' => ∃ next, kernel.Runs m next ∧ Runs rest next m'

/-- The token-by-token form: in a slot, one column after the other. -/
def decodeSteps (op : Op B) (slot : Nat) (columns : List (Nat → B))
    (m : Memory B) : Memory B :=
  columns.foldl (fun m column =>
    let kernel := decodeKernel { op with x := column } slot
    run (β := fun _ => B) kernel.body kernel.programs m) m

end

end Ginfer.Ops.CausalConv
