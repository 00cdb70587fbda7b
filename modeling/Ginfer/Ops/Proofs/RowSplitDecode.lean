/-
Every reader of the row-split layout decodes the same numbers.

A code is found in three places: its nibble in the base plane, its upper
bits in the high plane, its scale with the group. `Weight.low`, `high5`,
`high6` say where, in plain arithmetic; every reader, on the device and
in Python, is shown to take its bits from there (`code4` to `code8`).

Bit operations become arithmetic once: a mask is a remainder, a shift a
quotient, an or of separate bits a sum. What is left are finitely many
nibbles and upper bits.
-/
import Ginfer.Artifact.Proofs.RowSplitPlanes
import Ginfer.Ops.RowSplitDecode
import Mathlib.Tactic.IntervalCases

namespace Ginfer.Ops.RowSplit

open Ginfer.Lib
open Ginfer.Frontend (Bytes)

-- ============ the codes

/-- Two's complement of a code with sign bit `half`. -/
def twos (half u : Nat) : Int :=
  if u < half then u else (u : Int) - 2 * half

namespace Weight

variable (w : Weight)

/-- The nibble of a code of a group of 64. -/
def low (group item : Nat) : Nat :=
  let byte := (w.qdata (group * 32 + item / 2)).toNat
  if item % 2 = 0 then byte % 16 else byte / 16

/-- The fifth bit of a code. -/
def high5 (group item : Nat) : Nat :=
  (w.qhigh (group * 8 + item / 8)).toNat / 2 ^ (item % 8) % 2

/-- The fifth and sixth bit. -/
def high6 (group item : Nat) : Nat :=
  (w.qhigh (group * 16 + item / 4)).toNat / 2 ^ (item % 4 * 2) % 4

def code4 (group item : Nat) : Int := twos 8 (w.low group item)

def code5 (group item : Nat) : Int :=
  twos 16 (w.low group item + 16 * w.high5 group item)

def code6 (group item : Nat) : Int :=
  twos 32 (w.low group item + 16 * w.high6 group item)

def code8 (group item : Nat) : Int :=
  int8 (w.qdata (group * 32 + item)).toNat

/-- The word of a group's scale. -/
def scaleWord (group : Nat) : Nat := loadU16 w.scales (group * 2)

theorem low_lt (group item : Nat) : w.low group item < 16 := by
  have hbyte := (w.qdata (group * 32 + item / 2)).toNat_lt
  rw [low]
  split <;> omega

theorem high5_lt (group item : Nat) : w.high5 group item < 2 :=
  Nat.mod_lt _ (by decide)

theorem high6_lt (group item : Nat) : w.high6 group item < 4 :=
  Nat.mod_lt _ (by decide)

end Weight

-- ============ the bits

theorem and_low (x : Nat) : x &&& 0x0f = x % 16 :=
  Nat.and_two_pow_sub_one_eq_mod x 4

theorem and_one (x : Nat) : x &&& 1 = x % 2 :=
  Nat.and_two_pow_sub_one_eq_mod x 1

theorem and_three (x : Nat) : x &&& 3 = x % 4 :=
  Nat.and_two_pow_sub_one_eq_mod x 2

/-- An upper part over a nibble. -/
theorem nibble_or {low high : Nat} (hlow : low < 16) :
    low ||| (high <<< 4) = low + 16 * high := by
  rw [Nat.or_comm, ← Nat.shiftLeft_add_eq_or_of_lt hlow, Nat.shiftLeft_eq]
  omega

/-- The sign fix-up of the pair atoms. -/
theorem xor_sub_eq_twos :
    (∀ u < 16, ((u ^^^ 0x08 : Nat) : Int) - 0x08 = twos 8 u) ∧
    (∀ u < 32, ((u ^^^ 0x10 : Nat) : Int) - 0x10 = twos 16 u) ∧
    (∀ u < 64, ((u ^^^ 0x20 : Nat) : Int) - 0x20 = twos 32 u) := by
  decide

-- ============ the pairs

theorem q4Pair_eq {packed : Nat} (h : packed < 256) :
    q4Pair packed = (twos 8 (packed % 16), twos 8 (packed / 16)) := by
  rw [q4Pair, and_low, Nat.shiftRight_eq_div_pow,
    xor_sub_eq_twos.1 _ (by omega), xor_sub_eq_twos.1 _ (by omega)]

theorem q5Pair_eq {packed : Nat} (h : packed < 256) (highByte lane : Nat) :
    q5Pair packed highByte lane =
      (twos 16 (packed % 16 + 16 * (highByte / 2 ^ (lane % 4 * 2) % 2)),
        twos 16 (packed / 16
        + 16 * (highByte / 2 ^ (lane % 4 * 2 + 1) % 2))) := by
  rw [q5Pair]
  simp only [and_low, and_one, and_three, Nat.shiftRight_eq_div_pow]
  rw [nibble_or (by omega), nibble_or (by omega),
    xor_sub_eq_twos.2.1 _ (by omega), xor_sub_eq_twos.2.1 _ (by omega)]

theorem q6Pair_eq {packed : Nat} (h : packed < 256) (highByte lane : Nat) :
    q6Pair packed highByte lane =
      (twos 32 (packed % 16 + 16 * (highByte / 2 ^ (lane % 2 * 4) % 4)),
        twos 32 (packed / 16
        + 16 * (highByte / 2 ^ (lane % 2 * 4 + 2) % 4))) := by
  rw [q6Pair]
  simp only [and_low, and_one, and_three, Nat.shiftRight_eq_div_pow]
  rw [nibble_or (by omega), nibble_or (by omega),
    xor_sub_eq_twos.2.2 _ (by omega), xor_sub_eq_twos.2.2 _ (by omega)]

section

variable (w : Weight) (group item scale : Nat)

theorem pick_q4Pair :
    pick (scaledPair (q4Pair (w.qdata (group * 32 + item / 2)).toNat) scale)
      item = .ofInt (w.code4 group item) scale := by
  have hbyte := (w.qdata (group * 32 + item / 2)).toNat_lt
  rw [q4Pair_eq hbyte, pick, Weight.code4, Weight.low]
  by_cases heven : item % 2 = 0
  · rw [if_pos heven, if_pos heven, scaledPair]
  · rw [if_neg heven, if_neg heven, scaledPair]

theorem pick_q5Pair :
    pick (scaledPair
      (q5Pair (w.qdata (group * 32 + item / 2)).toNat
        (w.qhigh (group * 8 + ((item / 2) >>> 2))).toNat (item / 2)) scale)
      item = .ofInt (w.code5 group item) scale := by
  have hbyte := (w.qdata (group * 32 + item / 2)).toNat_lt
  have hquarter : (item / 2) >>> 2 = item / 8 := by
    rw [Nat.shiftRight_eq_div_pow]
    omega
  rw [q5Pair_eq hbyte, pick, Weight.code5, Weight.low, Weight.high5, hquarter]
  by_cases heven : item % 2 = 0
  · have hshift : item / 2 % 4 * 2 = item % 8 := by omega
    rw [if_pos heven, if_pos heven, scaledPair, hshift]
  · have hshift : item / 2 % 4 * 2 + 1 = item % 8 := by omega
    rw [if_neg heven, if_neg heven, scaledPair, hshift]

theorem pick_q6Pair :
    pick (scaledPair
      (q6Pair (w.qdata (group * 32 + item / 2)).toNat
        (w.qhigh (group * 16 + ((item / 2) >>> 1))).toNat (item / 2)) scale)
      item = .ofInt (w.code6 group item) scale := by
  have hbyte := (w.qdata (group * 32 + item / 2)).toNat_lt
  have hhalf : (item / 2) >>> 1 = item / 4 := by
    rw [Nat.shiftRight_eq_div_pow]
    omega
  rw [q6Pair_eq hbyte, pick, Weight.code6, Weight.low, Weight.high6, hhalf]
  by_cases heven : item % 2 = 0
  · have hshift : item / 2 % 2 * 4 = item % 4 * 2 := by omega
    rw [if_pos heven, if_pos heven, scaledPair, hshift]
  · have hshift : item / 2 % 2 * 4 + 2 = item % 4 * 2 := by omega
    rw [if_neg heven, if_neg heven, scaledPair, hshift]

/-- A group of 32 bytes has sixteen pairs. -/
theorem pick_w8ScalarPair (hitem : item < 32) :
    pick (w8ScalarPair w.qdata w.scales group (item / 2)) item
      = .ofInt (w.code8 group item) (w.scaleWord group) := by
  have hlane : ¬ 16 ≤ item / 2 := by omega
  rw [w8ScalarPair, if_neg hlane, pick, Weight.code8]
  by_cases heven : item % 2 = 0
  · have hbyte : group * 32 + item / 2 * 2 = group * 32 + item := by omega
    rw [if_pos heven, scaledPair, hbyte]
    rfl
  · have hbyte : group * 32 + item / 2 * 2 + 1 = group * 32 + item := by
      omega
    rw [if_neg heven, scaledPair, hbyte]
    rfl

end

-- ============ the staged tiles

/-- A byte of a group in a tile: the byte of the group. -/
theorem stage_eq (plane : Plane) {size rows : Nat} (groupsPerRow : Nat)
    {tile : Tile} {localRow group i : Nat} (hsize : i < size)
    (hgroup : group < tile.groups) (hrow : tile.row0 + localRow < rows) :
    stage plane size rows groupsPerRow tile
        ((localRow * tile.groups + group) * size + i)
      = plane (((tile.row0 + localRow) * groupsPerRow
        + (tile.group0 + group)) * size + i) := by
  have hpos : 0 < size := by omega
  have hrowGroup : ((localRow * tile.groups + group) * size + i) / size
      = localRow * tile.groups + group := by
    rw [mul_comm, Nat.mul_add_div hpos, Nat.div_eq_of_lt hsize, add_zero]
  have hlocal : (localRow * tile.groups + group) / tile.groups = localRow := by
    rw [mul_comm, Nat.mul_add_div (by omega), Nat.div_eq_of_lt hgroup, add_zero]
  have hbyte : ((localRow * tile.groups + group) * size + i) % size = i := by
    rw [mul_comm, Nat.mul_add_mod, Nat.mod_eq_of_lt hsize]
  rw [stage, hrowGroup, hlocal, hbyte, if_pos hrow, Nat.add_sub_cancel_left,
    add_assoc ((tile.row0 + localRow) * groupsPerRow)]

/-- The same for the scales of an aligned pair. -/
theorem stageScalePairs_eq (scales : Plane) {rows groupsPerRow : Nat}
    {tile : Tile} {localRow group i : Nat} (hi : i < 2)
    (hgroup : group < tile.groups) (hrow : tile.row0 + localRow < rows)
    (hinside : tile.group0 + group < groupsPerRow) :
    stageScalePairs scales rows groupsPerRow tile
        ((localRow * tile.groups + group) * 4 + (tile.group0 + group) % 2 * 2 + i)
      = scales (((tile.row0 + localRow) * groupsPerRow
        + (tile.group0 + group)) * 2 + i) := by
  have hrowGroup : ((localRow * tile.groups + group) * 4
      + (tile.group0 + group) % 2 * 2 + i) / 4
        = localRow * tile.groups + group := by omega
  have hbyte : ((localRow * tile.groups + group) * 4
      + (tile.group0 + group) % 2 * 2 + i) % 4
        = (tile.group0 + group) % 2 * 2 + i := by omega
  have hlocal : (localRow * tile.groups + group) / tile.groups = localRow := by
    rw [mul_comm, Nat.mul_add_div (by omega), Nat.div_eq_of_lt hgroup, add_zero]
  rw [stageScalePairs, hrowGroup, hlocal, hbyte, if_pos hrow, Nat.add_sub_cancel_left]
  by_cases hpair : (tile.group0 + group) / 2 * 2 + 1 < groupsPerRow
  · rw [if_pos hpair]
    congr 1
    omega
  · -- The last group of an odd row stands first in its pair.
    have heven : (tile.group0 + group) % 2 = 0 := by omega
    rw [if_neg hpair, heven, if_pos (by omega)]
    congr 1
    omega

section

variable (w : Weight) (mode : ScaleLoad) {tile : Tile} {localRow group item : Nat}

/-- The group of the tile's row `localRow` in the whole plane. -/
def Tile.groupIndex (tile : Tile) (w : Weight) (localRow group : Nat) :
    Nat :=
  (tile.row0 + localRow) * (w.paddedColumns / 64) + (tile.group0 + group)

theorem stagedScale_eq (hgroup : group < tile.groups)
    (hrow : tile.row0 + localRow < w.rows)
    (hinside : tile.group0 + group < w.paddedColumns / 64) :
    stagedScale mode w.scales w.rows (w.paddedColumns / 64) tile localRow
      group = w.scaleWord (tile.groupIndex w localRow group) := by
  rw [Weight.scaleWord, Tile.groupIndex]
  cases mode with
  | scalar16 =>
    have hfirst := stage_eq w.scales (w.paddedColumns / 64)
      (show 0 < 2 by decide) hgroup hrow
    have hsecond := stage_eq w.scales (w.paddedColumns / 64)
      (show 1 < 2 by decide) hgroup hrow
    rw [stagedScale, loadU16, loadU16, hsecond]
    rw [add_zero, add_zero] at hfirst
    rw [hfirst]
  | pair32 =>
    have hfirst := stageScalePairs_eq w.scales (show 0 < 2 by decide)
      hgroup hrow hinside
    have hsecond := stageScalePairs_eq w.scales (show 1 < 2 by decide)
      hgroup hrow hinside
    rw [stagedScale, loadU16, loadU16, hsecond]
    rw [add_zero, add_zero] at hfirst
    rw [hfirst]

variable (hgroup : group < tile.groups) (hitem : item < 64)
  (hrow : tile.row0 + localRow < w.rows)
  (hinside : tile.group0 + group < w.paddedColumns / 64)

include hgroup hitem hrow hinside

theorem q4MmaPair_eq :
    pick (q4MmaPair w mode tile localRow group (item / 2)) item
      = .ofInt (w.code4 (tile.groupIndex w localRow group) item)
        (w.scaleWord (tile.groupIndex w localRow group)) := by
  rw [q4MmaPair, stage_eq w.qdata _ (by omega) hgroup hrow,
    stagedScale_eq w mode hgroup hrow hinside]
  exact pick_q4Pair w _ item _

theorem q5MmaPair_eq :
    pick (q5MmaPair w mode tile localRow group (item / 2)) item
      = .ofInt (w.code5 (tile.groupIndex w localRow group) item)
        (w.scaleWord (tile.groupIndex w localRow group)) := by
  have hhigh : (item / 2) >>> 2 < 8 := by
    rw [Nat.shiftRight_eq_div_pow]
    omega
  rw [q5MmaPair, stage_eq w.qdata _ (by omega) hgroup hrow,
    stage_eq w.qhigh _ hhigh hgroup hrow,
    stagedScale_eq w mode hgroup hrow hinside]
  exact pick_q5Pair w _ item _

theorem q6MmaPair_eq :
    pick (q6MmaPair w mode tile localRow group (item / 2)) item
      = .ofInt (w.code6 (tile.groupIndex w localRow group) item)
        (w.scaleWord (tile.groupIndex w localRow group)) := by
  have hhigh : (item / 2) >>> 1 < 16 := by
    rw [Nat.shiftRight_eq_div_pow]
    omega
  rw [q6MmaPair, stage_eq w.qdata _ (by omega) hgroup hrow,
    stage_eq w.qhigh _ hhigh hgroup hrow,
    stagedScale_eq w mode hgroup hrow hinside]
  exact pick_q6Pair w _ item _

omit hgroup hitem hrow hinside

end

theorem loadU16_lt (plane : Plane) (i : Nat) : loadU16 plane i < 65536 := by
  have h0 := (plane i).toNat_lt
  have h1 := (plane (i + 1)).toNat_lt
  rw [loadU16]
  omega

/-- Half of a loaded word. -/
theorem word_half (plane : Plane) (i gg : Nat) :
    (loadU32 plane (i + gg / 2 * 4) >>> ((gg &&& 1) * 16)) &&& 0xffff
      = loadU16 plane (i + gg * 2) := by
  have hlow := loadU16_lt plane (i + gg / 2 * 4)
  have hhigh := loadU16_lt plane (i + gg / 2 * 4 + 2)
  rw [Nat.shiftRight_eq_div_pow, and_one,
    show (0xffff : Nat) = 2 ^ 16 - 1 from rfl,
    Nat.and_two_pow_sub_one_eq_mod, loadU32]
  by_cases heven : gg % 2 = 0
  · have hindex : i + gg * 2 = i + gg / 2 * 4 := by omega
    rw [heven, hindex]
    omega
  · have hodd : gg % 2 = 1 := by omega
    have hindex : i + gg * 2 = i + gg / 2 * 4 + 2 := by omega
    rw [hodd, hindex]
    omega

section

variable (w : Weight) {tile : W8Tile} {localRow row column : Nat}

/-- The k-tile of a column and its group in it. -/
theorem W8Tile.group_eq (hkt : column / 32 / tile.groups = tile.kt) :
    tile.kt * tile.groups + column / 32 % tile.groups = column / 32 := by
  rw [← hkt]
  exact Nat.div_add_mod' _ _

/-- The cached scales of a k-tile start where those before it end. -/
theorem W8Tile.cache_eq (tile : W8Tile) :
    tile.kt / tile.scaleTiles * tile.scaleTiles * tile.groups
      + tile.kt % tile.scaleTiles * tile.groups = tile.kt * tile.groups := by
  rw [← add_mul, Nat.div_add_mod']

theorem W8Tile.cache_lt (tile : W8Tile) :
    tile.kt % tile.scaleTiles * tile.groups + tile.groups ≤ 8 := by
  rw [W8Tile.scaleTiles, W8Tile.groups]
  cases tile.wide with
  | false =>
    change tile.kt % 4 * 2 + 2 ≤ 8
    omega
  | true =>
    change tile.kt % 2 * 4 + 4 ≤ 8
    omega

theorem W8Tile.groups_pos (tile : W8Tile) : 0 < tile.groups := by
  rw [W8Tile.groups]
  split <;> decide

variable (hrow : tile.weightRow localRow = row) (hinside : row < w.rows)

include hrow hinside

theorem w8StagedCode_eq (hkt : column / 32 / tile.groups = tile.kt) (i : Nat) :
    w8StagedCode w tile localRow (column / 32 % tile.groups * 32 + i)
      = w.qdata ((row * (w.paddedColumns / 32) + column / 32) * 32 + i) := by
  have hgroup := W8Tile.group_eq hkt
  rw [w8StagedCode, hrow, if_pos hinside]
  congr 1
  omega

theorem w8StagedScale_eq (hcolumn : column / 32 < w.paddedColumns / 32)
    (hkt : column / 32 / tile.groups = tile.kt) {i : Nat} (hi : i < 2) :
    w8StagedScale w tile localRow (tile.kt % tile.scaleTiles * tile.groups * 2
        + column / 32 % tile.groups * 2 + i)
      = w.scales ((row * (w.paddedColumns / 32) + column / 32) * 2 + i) := by
  have hgroup := W8Tile.group_eq hkt
  have hcache := tile.cache_eq
  have hsmall := tile.cache_lt
  have hmod := Nat.mod_lt (column / 32) tile.groups_pos
  rw [w8StagedScale, hrow]
  obtain ⟨g0, hg0⟩ : ∃ g0, g0 = tile.kt / tile.scaleTiles * tile.scaleTiles
      * tile.groups := ⟨_, rfl⟩
  rw [← hg0] at hcache ⊢
  have hvalid : row < w.rows ∧ g0 < w.paddedColumns / 32 :=
    ⟨hinside, by omega⟩
  rw [if_pos hvalid, if_pos (by omega)]
  congr 1
  have hmin : min g0 (w.paddedColumns / 32 - 1) = g0 := by omega
  rw [hmin]
  omega

/-- The pair of a tensor-core lane holds the codes of its columns. -/
theorem w8MmaPair_eq (hcolumn : column / 32 < w.paddedColumns / 32)
    (hkt : column / 32 / tile.groups = tile.kt) :
    pick (w8MmaPair w tile localRow (column / 32 % tile.groups)
        (column % 32 / 2)) (column % 32)
      = .ofInt
        (w.code8 (row * (w.paddedColumns / 32) + column / 32) (column % 32))
        (w.scaleWord (row * (w.paddedColumns / 32) + column / 32)) := by
  have hscale : loadU16 (w8StagedScale w tile localRow)
      (tile.kt % tile.scaleTiles * tile.groups * 2
        + column / 32 % tile.groups * 2)
        = w.scaleWord (row * (w.paddedColumns / 32) + column / 32) := by
    have hfirst := w8StagedScale_eq w hrow hinside hcolumn hkt
      (show 0 < 2 by decide)
    have hsecond := w8StagedScale_eq w hrow hinside hcolumn hkt
      (show 1 < 2 by decide)
    rw [add_zero, add_zero] at hfirst
    rw [loadU16, hfirst, hsecond]
    rfl
  have hfirst := w8StagedCode_eq w hrow hinside hkt (column % 32 / 2 * 2)
  have hsecond := w8StagedCode_eq w hrow hinside hkt (column % 32 / 2 * 2 + 1)
  rw [← add_assoc] at hsecond
  rw [w8MmaPair, word_half, hscale, loadU16, hfirst, hsecond]
  obtain ⟨group, hgroup⟩ : ∃ group,
    group = row * (w.paddedColumns / 32) + column / 32 := ⟨_, rfl⟩
  rw [← hgroup]
  have hbyte := (w.qdata (group * 32 + column % 32 / 2 * 2)).toNat_lt
  have hlow : ∀ other : Nat,
      ((w.qdata (group * 32 + column % 32 / 2 * 2)).toNat + 256 * other)
        &&& 0xff = (w.qdata (group * 32 + column % 32 / 2 * 2)).toNat := by
    intro other
    rw [show (0xff : Nat) = 2 ^ 8 - 1 from rfl, Nat.and_two_pow_sub_one_eq_mod]
    omega
  have hhigh : ∀ other : Nat,
      ((w.qdata (group * 32 + column % 32 / 2 * 2)).toNat + 256 * other)
        >>> 8 = other := by
    intro other
    rw [Nat.shiftRight_eq_div_pow]
    omega
  rw [hlow, hhigh, pick, Weight.code8]
  by_cases heven : column % 32 % 2 = 0
  · have hitem : group * 32 + column % 32 / 2 * 2
        = group * 32 + column % 32 := by omega
    rw [if_pos heven, scaledPair, hitem]
  · have hitem : group * 32 + (column % 32 / 2 * 2 + 1)
        = group * 32 + column % 32 := by omega
    rw [if_neg heven, scaledPair, hitem]

omit hrow hinside

end

-- ============ the eight-wide atoms

/-- The lower half of what the mantissa is built from. -/
theorem half_low {a b : Nat} (x : Nat) (ha : a < 4) (hb : b < 4) :
    (((x &&& 0x000f000f) ||| 0x64006400) ||| ((a <<< 4) ||| (b <<< 20))) % 2 ^ 16
      = 0x6400 + (x % 16 + 16 * a) := by
  have hx : x % 2 ^ 16 &&& 15 = x % 16 := by
    rw [and_low]
    omega
  have hparts : ∀ n < 16, ∀ a < 4, ∀ b < 4,
      (n ||| 0x6400) ||| (((a <<< 4) ||| (b <<< 20)) % 2 ^ 16)
        = 0x6400 + (n + 16 * a) := by decide
  rw [Nat.or_mod_two_pow, Nat.or_mod_two_pow, Nat.and_mod_two_pow]
  change (x % 2 ^ 16 &&& 15 ||| 0x6400) ||| _ = _
  rw [hx]
  exact hparts _ (Nat.mod_lt _ (by decide)) a ha b hb

/-- The upper half. -/
theorem half_high {a b : Nat} (x : Nat) (ha : a < 4) (hb : b < 4) :
    (((x &&& 0x000f000f) ||| 0x64006400) ||| ((a <<< 4) ||| (b <<< 20))) / 2 ^ 16
      = 0x6400 + (x / 2 ^ 16 % 16 + 16 * b) := by
  have hparts : ∀ n < 16, ∀ a < 4, ∀ b < 4,
      (n ||| 0x6400) ||| (((a <<< 4) ||| (b <<< 20)) / 2 ^ 16)
        = 0x6400 + (n + 16 * b) := by decide
  rw [Nat.or_div_two_pow, Nat.or_div_two_pow, Nat.and_div_two_pow]
  change (x / 2 ^ 16 &&& 15 ||| 0x6400) ||| _ = _
  rw [and_low]
  exact hparts _ (Nat.mod_lt _ (by decide)) a ha b hb

/-- Both halves, by item: nibble `item` with its upper bits. -/
theorem halfOf_eq (packed : Nat) {bias : Nat} (hbias : bias < 2 ^ 10)
    (high : Nat → Nat) (hhigh : ∀ item, high item < 4) {item : Nat}
    (hitem : item < 8) :
    halfOf (fun pair =>
        (((packed >>> (4 * pair)) &&& 0x000f000f) ||| 0x64006400) |||
        ((high pair <<< 4) ||| (high (pair + 4) <<< 20)))
        (0x6400 + bias) item
      = ((packed / 2 ^ (4 * item) % 16 + 16 * high item : Nat) - bias : Int)
        * 2 ^ 24 := by
  have hsmall : ∀ n, packed / n % 16 + 16 * high item < 2 ^ 10 := by
    intro n
    have := hhigh item
    omega
  rw [halfOf]
  by_cases hlower : item < 4
  · rw [if_pos hlower, half_low _ (hhigh _) (hhigh _),
      Nat.shiftRight_eq_div_pow, Binary16.sub_whole (hsmall _) hbias]
  · have hback : item - 4 + 4 = item := by omega
    have hshift : packed / 2 ^ (4 * (item - 4)) / 2 ^ 16
        = packed / 2 ^ (4 * item) := by
      have hpow : 4 * (item - 4) + 16 = 4 * item := by omega
      rw [Nat.div_div_eq_div_mul, ← pow_add, hpow]
    rw [if_neg hlower, half_high _ (hhigh _) (hhigh _),
      Nat.shiftRight_eq_div_pow, hshift, hback,
      Binary16.sub_whole (hsmall _) hbias]

/-- The bits of a masked word: those of the word, flipped where the mask
is set. -/
theorem field_xor (x mask shift width : Nat) :
    (x ^^^ mask) / 2 ^ shift % 2 ^ width
      = (x / 2 ^ shift % 2 ^ width) ^^^ (mask / 2 ^ shift % 2 ^ width) := by
  rw [Nat.xor_div_two_pow, Nat.xor_mod_two_pow]

theorem mask_fields : (∀ item < 8, 0x88888888 / 2 ^ (4 * item) % 2 ^ 4 = 8) ∧
    (∀ item < 8, 0xff / 2 ^ item % 2 ^ 1 = 1) ∧
    (∀ item < 8, 0xaaaa / 2 ^ (2 * item) % 2 ^ 2 = 2) := by decide

/-- What the bias leaves of a code with its sign bit flipped. -/
theorem flipped_sub_eq_twos : (∀ n < 16, ((n ^^^ 8 : Nat) : Int) - 8 = twos 8 n) ∧
    (∀ n < 16, ∀ h < 2,
      ((n + 16 * (h ^^^ 1) : Nat) : Int) - 16 = twos 16 (n + 16 * h)) ∧
    (∀ n < 16, ∀ h < 4,
      ((n + 16 * (h ^^^ 2) : Nat) : Int) - 32 = twos 32 (n + 16 * h)) := by
  decide

theorem q4Eight_eq (packed scale : Nat) {item : Nat} (hitem : item < 8) :
    q4Eight packed scale item
      = .ofInt (twos 8 (packed / 2 ^ (4 * item) % 16)) scale := by
  have hhalf := halfOf_eq (packed ^^^ 0x88888888) (show 8 < 2 ^ 10 by decide)
    (fun _ => 0) (fun _ => by decide) hitem
  simp only [Nat.zero_shiftLeft, Nat.or_zero, mul_zero, add_zero] at hhalf
  have hnibble := field_xor packed 0x88888888 (4 * item) 4
  rw [mask_fields.1 item hitem] at hnibble
  change (packed ^^^ 0x88888888) / 2 ^ (4 * item) % 16
    = packed / 2 ^ (4 * item) % 16 ^^^ 8 at hnibble
  rw [hnibble] at hhalf
  have hvalue := flipped_sub_eq_twos.1 (packed / 2 ^ (4 * item) % 16)
    (Nat.mod_lt _ (by decide))
  rw [Decoded.ofInt, ← hvalue]
  exact congrArg (Decoded.mk · scale) hhalf

theorem q5Eight_eq (packed highByte scale : Nat) {item : Nat} (hitem : item < 8) :
    q5Eight packed highByte scale item
      = .ofInt (twos 16 (packed / 2 ^ (4 * item) % 16
        + 16 * (highByte / 2 ^ item % 2))) scale := by
  have hhalf := halfOf_eq packed (show 16 < 2 ^ 10 by decide)
    (fun item => ((highByte ^^^ 0xff) >>> item) &&& 1)
    (fun item => by rw [and_one]; omega) hitem
  have hbit := field_xor highByte 0xff item 1
  rw [mask_fields.2.1 item hitem] at hbit
  change (highByte ^^^ 0xff) / 2 ^ item % 2
    = highByte / 2 ^ item % 2 ^^^ 1 at hbit
  rw [and_one, Nat.shiftRight_eq_div_pow, hbit] at hhalf
  have hvalue := flipped_sub_eq_twos.2.1 (packed / 2 ^ (4 * item) % 16)
    (Nat.mod_lt _ (by decide)) (highByte / 2 ^ item % 2)
    (Nat.mod_lt _ (by decide))
  rw [Decoded.ofInt, ← hvalue]
  exact congrArg (Decoded.mk · scale) hhalf

theorem q6Eight_eq (packed highWord scale : Nat) {item : Nat} (hitem : item < 8) :
    q6Eight packed highWord scale item
      = .ofInt (twos 32 (packed / 2 ^ (4 * item) % 16
        + 16 * (highWord / 2 ^ (2 * item) % 4))) scale := by
  have hhalf := halfOf_eq packed (show 32 < 2 ^ 10 by decide)
    (fun item => ((highWord ^^^ 0xaaaa) >>> (2 * item)) &&& 3)
    (fun item => by rw [and_three]; omega) hitem
  have hbits := field_xor highWord 0xaaaa (2 * item) 2
  rw [mask_fields.2.2 item hitem] at hbits
  change (highWord ^^^ 0xaaaa) / 2 ^ (2 * item) % 4
    = highWord / 2 ^ (2 * item) % 4 ^^^ 2 at hbits
  rw [and_three, Nat.shiftRight_eq_div_pow, hbits] at hhalf
  have hvalue := flipped_sub_eq_twos.2.2 (packed / 2 ^ (4 * item) % 16)
    (Nat.mod_lt _ (by decide)) (highWord / 2 ^ (2 * item) % 4)
    (Nat.mod_lt _ (by decide))
  have hdouble : ∀ pair, 2 * pair + 8 = 2 * (pair + 4) := by omega
  rw [q6Eight, Decoded.ofInt, ← hvalue]
  simp only [hdouble]
  exact congrArg (Decoded.mk · scale) hhalf

/-- The nibbles of four bytes. -/
theorem nibble_of_bytes (byte : Nat → Nat) (hbyte : ∀ i, byte i < 256)
    {item : Nat} (hitem : item < 8) :
    (byte 0 + 256 * byte 1 + 65536 * (byte 2 + 256 * byte 3))
        / 2 ^ (4 * item) % 16
      = if item % 2 = 0 then byte (item / 2) % 16
        else byte (item / 2) / 16 := by
  have h0 := hbyte 0
  have h1 := hbyte 1
  have h2 := hbyte 2
  have h3 := hbyte 3
  interval_cases item <;> simp <;> omega

/-- The pairs of bits of two bytes. -/
theorem upper_of_bytes (byte : Nat → Nat) (hbyte : ∀ i, byte i < 256)
    {item : Nat} (hitem : item < 8) :
    (byte 0 + 256 * byte 1) / 2 ^ (2 * item) % 4
      = byte (item / 4) / 2 ^ (item % 4 * 2) % 4 := by
  have h0 := hbyte 0
  have h1 := hbyte 1
  interval_cases item <;> simp <;> omega

section

variable (w : Weight) (group laneInGroup : Nat) {item : Nat}

/-- A loaded word holds the nibbles of its eight items. -/
theorem word_nibble (hitem : item < 8) :
    loadU32 w.qdata (group * 32 + laneInGroup * 4) / 2 ^ (4 * item) % 16
      = w.low group (laneInGroup * 8 + item) := by
  have hbyte : group * 32 + (laneInGroup * 8 + item) / 2
      = group * 32 + laneInGroup * 4 + item / 2 := by omega
  have hside : (laneInGroup * 8 + item) % 2 = item % 2 := by omega
  rw [Weight.low, hbyte, hside]
  exact nibble_of_bytes
    (fun i => (w.qdata (group * 32 + laneInGroup * 4 + i)).toNat)
    (fun i => (w.qdata _).toNat_lt) hitem

theorem q4LoadEight_eq (hitem : item < 8) :
    q4LoadEight w group laneInGroup item
      = .ofInt (w.code4 group (laneInGroup * 8 + item))
        (w.scaleWord group) := by
  rw [q4LoadEight, q4Eight_eq _ _ hitem, word_nibble w _ _ hitem]
  rfl

theorem q4FmaEight_eq (hitem : item < 8) :
    q4FmaEight w group laneInGroup item
      = .ofInt (w.code4 group (laneInGroup * 8 + item))
        (w.scaleWord group) := by
  rw [q4FmaEight, signedNibble, and_low, Nat.shiftRight_eq_div_pow,
    word_nibble w _ _ hitem, Weight.code4, twos]
  rfl

theorem q5LoadEight_eq (hitem : item < 8) :
    q5LoadEight w group laneInGroup item
      = .ofInt (w.code5 group (laneInGroup * 8 + item))
        (w.scaleWord group) := by
  have hbyte : (laneInGroup * 8 + item) / 8 = laneInGroup := by omega
  have hbit : (laneInGroup * 8 + item) % 8 = item := by omega
  rw [q5LoadEight, q5Eight_eq _ _ _ hitem, word_nibble w _ _ hitem,
    Weight.code5, Weight.high5, hbyte, hbit]
  rfl

/-- A loaded word of the high plane holds the upper bits of its items. -/
theorem word_high6 (hitem : item < 8) :
    loadU16 w.qhigh (group * 16 + laneInGroup * 2) / 2 ^ (2 * item) % 4
      = w.high6 group (laneInGroup * 8 + item) := by
  have hbyte : group * 16 + (laneInGroup * 8 + item) / 4
      = group * 16 + laneInGroup * 2 + item / 4 := by omega
  have hshift : (laneInGroup * 8 + item) % 4 = item % 4 := by omega
  rw [Weight.high6, hbyte, hshift]
  exact upper_of_bytes
    (fun i => (w.qhigh (group * 16 + laneInGroup * 2 + i)).toNat)
    (fun i => (w.qhigh _).toNat_lt) hitem

theorem q6LoadEight_eq (hitem : item < 8) :
    q6LoadEight w group laneInGroup item
      = .ofInt (w.code6 group (laneInGroup * 8 + item))
        (w.scaleWord group) := by
  rw [q6LoadEight, q6Eight_eq _ _ _ hitem, word_nibble w _ _ hitem,
    word_high6 w _ _ hitem]
  rfl

end

-- ============ the readers

namespace Weight

variable (w : Weight)

/-- The code of a weight, by the bits of its format. -/
def code (bits group item : Nat) : Int :=
  match bits with
  | 4 => w.code4 group item
  | 5 => w.code5 group item
  | 6 => w.code6 group item
  | _ => w.code8 group item

/-- The weight at a row and column. -/
def weightAt (bits groupSize row column : Nat) : Decoded :=
  let group := row * (w.paddedColumns / groupSize) + column / groupSize
  .ofInt (w.code bits group (column % groupSize)) (w.scaleWord group)

end Weight

section

variable {w : Weight} {row column : Nat}

/-- A tile's row and group are those of the weight. -/
theorem Tile.groupIndex_eq {tile : Tile} (hrow : tile.row0 ≤ row)
    (hgroup : tile.group0 ≤ column / 64) :
    tile.groupIndex w (row - tile.row0) (column / 64 - tile.group0)
      = row * (w.paddedColumns / 64) + column / 64 := by
  have hrows : tile.row0 + (row - tile.row0) = row := by omega
  have hgroups : tile.group0 + (column / 64 - tile.group0)
      = column / 64 := by omega
  rw [Tile.groupIndex, hrows, hgroups]

/-- Every reader decodes the weight. -/
theorem Reader.decode_eq {bits groupSize : Nat} (reader : Reader)
    (hspec : Artifact.formatSpec reader.format = .quant bits groupSize)
    (hrow : row < w.rows) (hcolumn : column < w.paddedColumns)
    (hpadded : w.paddedColumns % 128 = 0) (hholds : reader.Holds row column) :
    reader.decode w row column = w.weightAt bits groupSize row column := by
  -- The eight items of a load, and the groups of a row.
  have hitem : column % 64 / 8 * 8 + column % 8 = column % 64 := by omega
  have hlane : column % 8 < 8 := by omega
  have hgroups : column / 64 < w.paddedColumns / 64 := by omega
  cases reader with
  | q4Simt =>
    cases hspec
    exact pick_q4Pair w _ _ _
  | q4Eight =>
    cases hspec
    rw [Reader.decode, q4LoadEight_eq w _ _ hlane, hitem]
    rfl
  | q4Fma =>
    cases hspec
    rw [Reader.decode, q4FmaEight_eq w _ _ hlane, hitem]
    rfl
  | q4Mma mode tile =>
    cases hspec
    obtain ⟨hrow0, hgroup0, hgroup⟩ := hholds
    rw [Reader.decode, q4MmaPair_eq w mode (by omega) (by omega) (by omega)
      (by omega), Tile.groupIndex_eq hrow0 hgroup0]
    rfl
  | q5Scalar =>
    cases hspec
    exact pick_q5Pair w _ _ _
  | q5Eight =>
    cases hspec
    rw [Reader.decode, q5LoadEight_eq w _ _ hlane, hitem]
    rfl
  | q5Mma mode tile =>
    cases hspec
    obtain ⟨hrow0, hgroup0, hgroup⟩ := hholds
    rw [Reader.decode, q5MmaPair_eq w mode (by omega) (by omega) (by omega)
      (by omega), Tile.groupIndex_eq hrow0 hgroup0]
    rfl
  | q6Eight =>
    cases hspec
    rw [Reader.decode, q6LoadEight_eq w _ _ hlane, hitem]
    rfl
  | q6Mma mode tile =>
    cases hspec
    obtain ⟨hrow0, hgroup0, hgroup⟩ := hholds
    rw [Reader.decode, q6MmaPair_eq w mode (by omega) (by omega) (by omega)
      (by omega), Tile.groupIndex_eq hrow0 hgroup0]
    rfl
  | w8Scalar =>
    cases hspec
    rw [Reader.decode, pick_w8ScalarPair w _ _ (by omega)]
    rfl
  | w8Mma tile localRow =>
    cases hspec
    exact w8MmaPair_eq w hholds.1 hrow (by omega) hholds.2

end

end Ginfer.Ops.RowSplit
