/-
Sums that a warp takes apart (ops/common/warp.cuh).

A loop whose turns each add their term adds the sum of the terms
(`foldl_adds`), lane zero of a reduced warp holds the sum of the lanes
(`warpReduceSum_zero`), and a sum over blocks of one width is the sum over
all positions (`sum_range_blocks`).
-/
import Mathlib.Data.UInt
import Mathlib.Algebra.BigOperators.Intervals
import Mathlib.Tactic.Ring

namespace Ginfer.Ops.Warp

variable {R : Type} [CommRing R]

/-- `__shfl_down_sync` over a whole warp. -/
def shflDown (value : Nat → R) (offset lane : Nat) : R :=
  if lane + offset < 32 then value (lane + offset) else value lane

/-- `warp_reduce_sum`. -/
def warpReduceSum (value : Nat → R) : Nat → R :=
  [16, 8, 4, 2, 1].foldl
    (fun value offset lane => value lane + shflDown value offset lane) value

theorem warpReduceSum_zero (value : Nat → R) :
    warpReduceSum value 0 = ∑ lane ∈ Finset.range 32, value lane := by
  simp [warpReduceSum, shflDown, Finset.sum_range_succ]
  ring

/-- A loop whose turn `i` adds `term i` to what `total` reads. -/
theorem foldl_adds {σ : Type} (total : σ → R) {step : σ → Nat → σ} {n : Nat}
    {term : Nat → R}
    (hstep : ∀ s, ∀ i < n, total (step s i) = total s + term i) (s : σ) :
    total ((List.range n).foldl step s)
      = total s + ∑ i ∈ Finset.range n, term i := by
  induction n with
  | zero => exact (add_zero _).symm
  | succ n ih =>
    rw [List.range_succ, List.foldl_append, List.foldl_cons, List.foldl_nil,
      hstep _ n n.lt_succ_self, ih fun s i hi => hstep s i (Nat.lt_succ_of_lt hi),
      Finset.sum_range_succ, add_assoc]

theorem sum_range_blocks (f : Nat → R) (blocks width : Nat) :
    ∑ i ∈ Finset.range blocks, ∑ j ∈ Finset.range width, f (i * width + j)
      = ∑ k ∈ Finset.range (blocks * width), f k := by
  induction blocks with
  | zero => rw [Nat.zero_mul, Finset.sum_range_zero, Finset.sum_range_zero]
  | succ n ih => rw [Finset.sum_range_succ, ih, Nat.succ_mul, Finset.sum_range_add]

/-- Pairs next to each other. -/
theorem sum_range_pairs (f : Nat → R) (n : Nat) :
    ∑ i ∈ Finset.range n, (f (2 * i) + f (2 * i + 1))
      = ∑ k ∈ Finset.range (2 * n), f k := by
  rw [Nat.mul_comm, ← sum_range_blocks]
  refine Finset.sum_congr rfl fun i _ => ?_
  rw [Finset.sum_range_succ, Finset.sum_range_one, Nat.mul_comm 2]
  rfl

end Ginfer.Ops.Warp
