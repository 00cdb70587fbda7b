/-
Drawing a token from a truncated distribution
(ops/kernel/sampling_device.cuh, and the pick of
ops/launcher/dflash2_select.cu).

A column's distribution is the list of its candidates in rank order, each
with its probability (`cand_idx`, `prob`, up to `n_support`). Every number
the kernels keep in a float is an element of an ordered field `K`: the
code below is exact, so that it runs on the rationals and has a law over
the reals. The random numbers are a parameter, read by their key (the
logical position and the purpose; the seed is the row's own).
-/
import Mathlib.Data.UInt
import Mathlib.Algebra.Order.Field.Basic
import Mathlib.Algebra.BigOperators.Group.List.Basic

namespace Ginfer.Ops

/-- A token id (`std::int32_t`). -/
abbrev Token := Int

/-- The subkey of the counter-based random numbers. -/
inductive SamplePurpose where
  | prefill
  | decode
  | speculativeAccept
  | speculativeCorrection
  | speculativeBonus
  | dflashSelect
deriving DecidableEq

/-- The values of `sampling_uniform` for one seed, by position and
purpose. -/
abbrev Uniform (K : Type) := Int × SamplePurpose → K

variable {K : Type} [Field K] [LinearOrder K]

/-- The part of a row's `SamplingConfig` that is read here. `tokenCounts`
says whether the pointer to the row's occurrence counts is set; the
array itself is device state. `install_sampling` sets it exactly when a
penalty is active. -/
structure SamplingConfig (K : Type) [Zero K] where
  temperature : K
  presencePenalty : K
  frequencyPenalty : K
  tokenCounts : Bool
  counted : tokenCounts = false → presencePenalty = 0 ∧ frequencyPenalty = 0

-- ============ penalties

/-- `sampling_adjusted_logit`: the raw logit less the penalties for the
occurrences of `v`, counted in the row's array and in the overlay. -/
def samplingAdjustedLogit (raw : K) (v : Token) (c : SamplingConfig K)
    (counts : Token → Nat) (overlay : List Token) : K :=
  if c.presencePenalty = 0 ∧ c.frequencyPenalty = 0 then raw
  else
    let cnt := (if c.tokenCounts then counts v else 0) + overlay.count v
    let x := if 0 < cnt then raw - c.presencePenalty else raw
    if c.frequencyPenalty = 0 then x else x - c.frequencyPenalty * cnt

/-- The effect of drawing `token` on the occurrence counts
(`atomicAdd(&cfg.token_counts[picked], 1)`, when the pointer is set). -/
def countToken (c : SamplingConfig K) (counts : Token → Nat)
    (token : Token) : Token → Nat :=
  if c.tokenCounts then
    Function.update counts token (counts token + 1)
  else counts

-- ============ picks

/-- The probability listed first for `id`, zero when it is not listed. -/
def listedProbability : List (Token × K) → Token → K
  | [], _ => 0
  | (c, p) :: rest, id => if c = id then p else listedProbability rest id

/-- Everything listed for `id`. -/
def scatteredProbability (list : List (Token × K)) (id : Token) : K :=
  ((list.filter (fun c => c.1 = id)).map Prod.snd).sum

/-- The loop of every inverse-CDF pick: the first candidate whose
cumulative weight passes `goal`, else the last one. -/
def inverseCdf (goal : K) : List (Token × K) → K → Token → Token
  | [], _, picked => picked
  | (c, w) :: rest, acc, _ =>
    if goal < acc + w then c else inverseCdf goal rest (acc + w) c

/-- `sampling_pick_from_support`. -/
def samplingPickFromSupport (support : List (Token × K))
    (exclude : Token) (u : K) : Token :=
  let kept := support.filter (fun c => c.1 ≠ exclude)
  let mass := (kept.map Prod.snd).sum
  if mass ≤ 0 then (support.headD (0, 0)).1
  else inverseCdf (u * mass) kept 0 (-1)

/-- The weights `pick_residual` draws from: the target's probability less
the selector's, where that is positive. -/
def residual (support selector : List (Token × K)) : List (Token × K) :=
  support.map (fun c => (c.1, max (c.2 - scatteredProbability selector c.1) 0))

/-- `pick_residual`. -/
def pickResidual (support selector : List (Token × K)) (u : K) : Token :=
  let weights := residual support selector
  let total := (weights.map Prod.snd).sum
  if total ≤ 0 then samplingPickFromSupport support (-1) u
  else inverseCdf (u * total) weights 0 (support.headD (0, 0)).1

/-- The pick of `select_path_kernel` at one position, from the selector
distribution it has just normalised. -/
def selectPick (selector : List (Token × K)) (u : K) : Token :=
  inverseCdf u selector 0 0

end Ginfer.Ops
