/-
One speculative round over a batch
(ops/kernel/speculative_round.cuh and the acceptance kernels of
ops/launcher/dflash2_select.cu).

A round writes the verify inputs of every row, the target runs over them,
and an acceptance op licenses tokens: the accepted prefix of the row's
drafts and one token of the target's own. The buffers are the device's,
request-major and flat, as the kernels index them; the blocks of a launch
run in any order (`order`).

Both ops have a greedy and a sampling branch, chosen by each row's
temperature:

- `speculative_accept_greedy_drafts` (its single-block kernel and
  `speculative_sampling_group_finalize_kernel` compute the same row) takes
  each draft as a certain proposal;
- `dflash2_accept` (`dflash2_accept_commit_kernel`, and the fallback
  kernel for domains the hierarchy cannot hold) weighs each draft by the
  selector's probability for it.

The target's forward pass, and the truncation of a column of logits to a
distribution (top-k, top-p, min-p, softmax), are parameters.
-/
import Ginfer.Ops.Sampling

namespace Ginfer.Ops

variable {K : Type} [Field K] [LinearOrder K]

-- ============ one row

/-- What acceptance decides for a row: the number of drafts kept and the
token after them. -/
structure Outcome where
  accepted : Nat
  terminal : Token

/-- Everything acceptance reads for one row, column by column. -/
structure RowInputs (K : Type) where
  extent : Nat
  length : Int
  drafts : Nat → Token
  /-- the target's own token of each column (`target_tokens`, or rank
  zero of `dist_indices`) -/
  targets : Nat → Token
  /-- the target's truncated distribution of each column -/
  support : Nat → List (Token × K)
  /-- the selector's candidates and probabilities of each column -/
  selector : Nat → List (Token × K)
  uniform : Uniform K

/-- `while (a < extent && row_targets[a] == row_drafts[a]) { ++a; }`, by
the number of iterations left to `extent`. -/
def matchDrafts (targets drafts : Nat → Token) : Nat → Nat → Nat
  | 0, a => a
  | left + 1, a =>
    if targets a = drafts a then matchDrafts targets drafts left (a + 1)
    else a

/-- The loop over the columns that stops at the first one whose draft
fails its test, by the number of drafts left. -/
def acceptColumns (test : Nat → Bool) (correction bonus : Nat → Token) :
    Nat → Nat → Outcome
  | 0, column => ⟨column, bonus column⟩
  | left + 1, column =>
    if test column then
      acceptColumns test correction bonus left (column + 1)
    else ⟨column, correction column⟩

/-- The greedy branch of `speculative_accept_greedy_drafts`. -/
def speculativeAcceptGreedy (row : RowInputs K) : Outcome :=
  let a := matchDrafts row.targets row.drafts row.extent 0
  ⟨a, row.targets a⟩

/-- The greedy branch of `dflash2_accept`. -/
def dflash2AcceptGreedy (row : RowInputs K) : Outcome :=
  acceptColumns (fun column => row.targets column = row.drafts column)
    row.targets row.targets row.extent 0

/-- The bonus of both sampling branches, from the column after the last
draft. -/
def bonusPick (row : RowInputs K) (column : Nat) : Token :=
  samplingPickFromSupport (row.support column) (-1)
    (row.uniform (row.length + column + 1, .speculativeBonus))

/-- The sampling branch of `speculative_accept_greedy_drafts`. -/
def speculativeAcceptSampled (row : RowInputs K) : Outcome :=
  acceptColumns
    (fun i => row.uniform (row.length + i + 1, .speculativeAccept) <
      listedProbability (row.support i) (row.drafts i))
    (fun i => samplingPickFromSupport (row.support i) (row.drafts i)
      (row.uniform (row.length + i + 1, .speculativeCorrection)))
    (bonusPick row) row.extent 0

/-- The sampling branch of `dflash2_accept`. -/
def dflash2AcceptSampled (row : RowInputs K) : Outcome :=
  acceptColumns
    (fun column =>
      row.uniform (row.length + column + 1, .speculativeAccept) *
          listedProbability (row.selector column) (row.drafts column) <
        listedProbability (row.support column) (row.drafts column))
    (fun column => pickResidual (row.support column) (row.selector column)
      (row.uniform (row.length + column + 1, .speculativeCorrection)))
    (bonusPick row) row.extent 0

/-- The tokens a row licenses. -/
def Outcome.licensed (o : Outcome) (drafts : Nat → Token) : List Token :=
  (List.range o.accepted).map drafts ++ [o.terminal]

-- ============ the device

/-- The buffers of a batch. `tokenCounts` is each row's occurrence array. -/
structure Device where
  lengths : Nat → Int
  anchors : Nat → Token
  licensedTokens : Nat → Token
  licensedCounts : Nat → Int
  accepted : Nat → Int
  verifyIds : Nat → Token
  positions : Nat → Int
  tokenCounts : Nat → Token → Nat

/-- Which acceptance op the target runs. -/
inductive AcceptOp where
  | speculativeAccept
  | dflash2Accept

/-- What a round is given: the proposals of the drafter and, for the
acceptance, what the target made of the verify inputs. -/
structure Round (K : Type) [Zero K] where
  op : AcceptOp
  currentExtents : Nat → Int
  drafts : Nat → Token
  selector : Nat → Nat → List (Token × K)
  targetTokens : Nat → Token
  logits : Nat → Token → K
  configs : Nat → SamplingConfig K
  uniform : Nat → Uniform K
  order : List Nat

/-- `extent < 0 ? 0 : (extent > k ? k : extent)`. -/
def clampExtent (k : Nat) (extent : Int) : Nat :=
  if extent < 0 then 0 else if (k : Int) < extent then k else extent.toNat

/-- `for (i = 0; i < n; ++i) buffer[base + i] = values(i)`. -/
def writeRange (base n : Nat) (values : Nat → Int) (buffer : Nat → Int) :
    Nat → Int :=
  (List.range n).foldl (fun b i => Function.update b (base + i) (values i)) buffer

/-- A row of `speculative_prepare_verify_inputs_kernel`; the base
position of a row is its length. -/
def prepareVerifyRow (k : Nat) (r : Round K) (d : Device) (row : Nat) :
    Device :=
  let extent := clampExtent k (r.currentExtents row)
  { d with
    verifyIds := writeRange (row * (k + 1)) (k + 1)
      (fun j => if j = 0 then d.anchors row
        else if j ≤ extent then r.drafts (row * k + j - 1)
        else d.anchors row) d.verifyIds
    positions := writeRange (row * (k + 1)) (k + 1)
      (fun j => d.lengths row + (if j ≤ extent then j else extent))
      d.positions }

/-- The verify inputs of the whole batch. -/
def prepareVerifyInputs (k : Nat) (r : Round K) (d : Device) : Device :=
  r.order.foldl (prepareVerifyRow k r) d

-- ============ acceptance

section

-- the truncation of a column's logits
variable (truncate : SamplingConfig K → (Token → K) → List (Token × K))
variable (k : Nat)

/-- The columns of a row as the acceptance kernels read them. Column
`i` is truncated under the penalties of the row's counts and of the
drafts before it. -/
def rowInputs (r : Round K) (d : Device) (row : Nat) : RowInputs K where
  extent := clampExtent k (r.currentExtents row)
  length := d.lengths row
  drafts i := r.drafts (row * k + i)
  targets i := r.targetTokens (row * (k + 1) + i)
  support i := truncate (r.configs row) (fun v =>
    samplingAdjustedLogit (r.logits (row * (k + 1) + i) v) v
      (r.configs row) (d.tokenCounts row)
      ((List.range i).map (fun j => r.drafts (row * k + j))))
  selector i := r.selector row i
  uniform := r.uniform row

/-- A row of the acceptance op, on the branch its temperature selects. -/
def acceptOutcome (r : Round K) (d : Device) (row : Nat) : Outcome :=
  let inputs := rowInputs truncate k r d row
  if 0 < (r.configs row).temperature then
    match r.op with
    | .speculativeAccept => speculativeAcceptSampled inputs
    | .dflash2Accept => dflash2AcceptSampled inputs
  else
    match r.op with
    | .speculativeAccept => speculativeAcceptGreedy inputs
    | .dflash2Accept => dflash2AcceptGreedy inputs

/-- The writes of a row once its outcome is known. Only the sampling
branch counts the tokens. -/
def commitRow (r : Round K) (row : Nat) (o : Outcome) (d : Device) :
    Device :=
  let base := row * (k + 1)
  let produced := o.accepted + 1
  let cleared := writeRange base (k + 1) (fun _ => 0) d.licensedTokens
  let drafted := writeRange base o.accepted
    (fun i => r.drafts (row * k + i)) cleared
  let tokens := Function.update drafted (base + o.accepted) o.terminal
  { d with
    licensedTokens := tokens
    licensedCounts := Function.update d.licensedCounts row produced
    accepted := Function.update d.accepted row o.accepted
    anchors := Function.update d.anchors row o.terminal
    lengths := Function.update d.lengths row (d.lengths row + produced)
    tokenCounts :=
      if 0 < (r.configs row).temperature then
        Function.update d.tokenCounts row
          (((List.range produced).map (fun i => tokens (base + i))).foldl
            (countToken (r.configs row)) (d.tokenCounts row))
      else d.tokenCounts }

/-- A block of the acceptance op. `dflash2_accept` leaves a row alone
whose extent is out of range; the other op clamps it. -/
def acceptRow (r : Round K) (d : Device) (row : Nat) : Device :=
  match r.op with
  | .speculativeAccept =>
    commitRow k r row (acceptOutcome truncate k r d row) d
  | .dflash2Accept =>
    if r.currentExtents row < 0 ∨ (k : Int) < r.currentExtents row then d
    else commitRow k r row (acceptOutcome truncate k r d row) d

/-- The acceptance of the whole batch. -/
def acceptDrafts (r : Round K) (d : Device) : Device :=
  r.order.foldl (acceptRow truncate k r) d

/-- What the host reads back for a row. -/
def licensedRow (d : Device) (row : Nat) : List Token :=
  (List.range (d.licensedCounts row).toNat).map
    (fun i => d.licensedTokens (row * (k + 1) + i))

-- ============ rounds

/-- The device between rounds and, as a ghost, everything the host has
read for each row. -/
structure Decoding where
  device : Device
  output : Nat → List Token

/-- One round of a batch of `batch` rows: the verify inputs, then the
acceptance, then the host's read. A launch has one block for each row. -/
def decodeRound (batch : Nat) (s : Decoding) (r : Round K) : Option Decoding :=
  if r.order.Perm (List.range batch) then
    let device :=
      acceptDrafts truncate k r (prepareVerifyInputs k r s.device)
    some {
      device := device
      output := fun row =>
        if row < batch then s.output row ++ licensedRow k device row
        else s.output row }
  else none

end

end Ginfer.Ops
