/-
Every weight of an NVFP4 product meets its own scale, once.

# Three index maps

The stored scales, the rows of a block and the staged bytes each have
their own order. `scaleOffset_row` gives the stored place of a scale of a
block's row; the staging puts exactly that byte at the row's own group
(`stageScales_eq`), and a lane takes exactly that group's byte out of the
word its subgroup shares (`coefficient_eq`, both access modes). The rows
of the grid are the rows in the order of `shuffle`, a permutation of each
128 (`gridRows_perm`).

# The sum

A lane's pair is `(phase * 32 + lane) * pairsPerLane + pair`; the chains
only part the terms (`total_pairStep`), so phases, lanes and pairs
together run over every column once (`rowStore_value`).
-/
import Ginfer.Ops.Nvfp4Gemv
import Mathlib.Algebra.BigOperators.Ring.Finset

namespace Ginfer.Ops.Nvfp4

open Ginfer.Lib List
open Ginfer.Ops.RowSplit (Plane loadU16 loadU32)
open Ginfer.Ops.Warp

-- ============ the words

/-- A byte of a word. -/
theorem loadU32_byte (plane : Plane) (i : Nat) {j : Nat} (hj : j < 4) :
    loadU32 plane i >>> (8 * j) % 256 = (plane (i + j)).toNat := by
  have step (a n : Nat) (ha : a < 256) : (a + 256 * n) / 256 = n := by omega
  have h (n : Nat) : (plane n).toNat < 256 := (plane n).toNat_lt
  have hword : loadU32 plane i = (plane i).toNat + 256 * ((plane (i + 1)).toNat
      + 256 * ((plane (i + 2)).toNat + 256 * (plane (i + 3)).toNat)) := by
    rw [loadU32, loadU16, loadU16, Nat.add_assoc i 2 1]
    omega
  have hshift : loadU32 plane i >>> (8 * j) = loadU32 plane i / 256 ^ j := by
    rw [Nat.shiftRight_eq_div_pow, Nat.pow_mul]
  rw [hshift, hword]
  match j, hj with
  | 0, _ => rw [Nat.pow_zero, Nat.div_one, Nat.add_mul_mod_self_left, Nat.mod_eq_of_lt (h _)]; rfl
  | 1, _ => rw [Nat.pow_one, step _ _ (h _), Nat.add_mul_mod_self_left, Nat.mod_eq_of_lt (h _)]
  | 2, _ =>
    rw [Nat.pow_two, ← Nat.div_div_eq_div_mul, step _ _ (h _), step _ _ (h _),
      Nat.add_mul_mod_self_left, Nat.mod_eq_of_lt (h _)]
  | 3, _ =>
    rw [Nat.pow_succ, Nat.pow_two, ← Nat.div_div_eq_div_mul, ← Nat.div_div_eq_div_mul,
      step _ _ (h _), step _ _ (h _), step _ _ (h _), Nat.mod_eq_of_lt (h _)]

theorem loadU32_ofNat (plane : Plane) (i : Nat) {j : Nat} (hj : j < 4) :
    UInt8.ofNat (loadU32 plane i >>> (8 * j)) = plane (i + j) := by
  rw [← UInt8.toNat_inj, UInt8.toNat_ofNat', ← loadU32_byte plane i hj]

theorem and_three (n : Nat) : n &&& 3 = n % 4 := Nat.and_two_pow_sub_one_eq_mod n 2

-- ============ the scales

section

variable (g : Geometry)

theorem Geometry.groups_eq : g.groupsPerRow = g.scaleTilesPerRow * 4 := by
  have := g.columnTiles
  rw [Geometry.groupsPerRow, Geometry.scaleTilesPerRow]
  omega

/-- The stored place, digit by digit. -/
theorem scaleOffset_eq (row group : Nat) :
    scaleOffset g row group
      = (row / 128 * g.scaleTilesPerRow + group / 4) * 512 + row % 32 * 16
        + row % 128 / 32 * 4 + group % 4 := by
  have hinner : row - row / 128 * 128 = row % 128 := by omega
  have hmod : row % 128 &&& 31 = row % 128 % 32 :=
    Nat.and_two_pow_sub_one_eq_mod _ 5
  have hmod32 : row % 128 % 32 = row % 32 := by omega
  simp only [scaleOffset, hinner, hmod, hmod32, and_three, Nat.shiftRight_eq_div_pow]

/-- A row in its tile: which quartile of 32, and where in it. -/
theorem exists_row (row : Nat) :
    ∃ m q r, q < 4 ∧ r < 32 ∧ row = m * 128 + q * 32 + r :=
  ⟨row / 128, row % 128 / 32, row % 128 % 32, by omega, by omega, by omega⟩

theorem scaleOffset_digits {m q r t l : Nat} (hq : q < 4) (hr : r < 32) (hl : l < 4) :
    scaleOffset g (m * 128 + q * 32 + r) (t * 4 + l)
      = (m * g.scaleTilesPerRow + t) * 512 + r * 16 + q * 4 + l := by
  have htile : (m * 128 + q * 32 + r) / 128 = m := by omega
  have hmod : (m * 128 + q * 32 + r) % 32 = r := by omega
  have hquartile : (m * 128 + q * 32 + r) % 128 / 32 = q := by omega
  have hgroup : (t * 4 + l) / 4 = t := by omega
  have hlane : (t * 4 + l) % 4 = l := by omega
  rw [scaleOffset_eq, htile, hmod, hquartile, hgroup, hlane]

theorem unswizzleScales_eq (source : Plane) (row : Nat) {group : Nat}
    (hgroup : group < g.groupsPerRow) :
    unswizzleScales g source row group = source (scaleOffset g row group) := by
  obtain ⟨m, q, r, hq, hr, rfl⟩ := exists_row row
  obtain ⟨t, ht, l, hl, rfl⟩ := digits_iff.2 (g.groups_eq ▸ hgroup)
  have hpos : 0 < g.scaleTilesPerRow := Nat.zero_lt_of_lt ht
  have hflat : (m * 128 + q * 32 + r) * g.groupsPerRow + (t * 4 + l)
      = 4 * (g.scaleTilesPerRow * (m * 128 + q * 32 + r) + t) + l := by
    rw [g.groups_eq]
    ring
  have hquot : (4 * (g.scaleTilesPerRow * (m * 128 + q * 32 + r) + t) + l) / 4
      = g.scaleTilesPerRow * (m * 128 + q * 32 + r) + t := by omega
  have hlane : (4 * (g.scaleTilesPerRow * (m * 128 + q * 32 + r) + t) + l) % 4 = l := by
    omega
  have hmod : (m * 128 + q * 32 + r) % 32 = r := by omega
  have hquartile : (m * 128 + q * 32 + r) / 32 % 4 = q := by omega
  have htile : (m * 128 + q * 32 + r) / 32 / 4 = m := by omega
  rw [scaleOffset_digits g hq hr hl]
  simp only [unswizzleScales, hflat, hquot, hlane]
  rw [Nat.mul_add_div hpos, Nat.mul_add_mod, Nat.div_eq_of_lt ht, Nat.mod_eq_of_lt ht,
    Nat.add_zero, hmod, hquartile, htile]
  exact congrArg source (by omega)

/-- `nvfp4_scale_offset` orders the scales of the matrix. -/
theorem scaleOffset_bijOn :
    Set.BijOn (fun p : Nat × Nat => scaleOffset g p.1 p.2)
      (Set.Iio g.outputRows ×ˢ Set.Iio g.groupsPerRow)
      (Set.Iio (g.outputRows * g.inputRows / 16)) := by
  obtain ⟨tiles, htiles⟩ := g.rowTiles
  have hcolumns : g.inputRows = g.groupsPerRow * 16 := by
    have := g.columnTiles
    rw [Geometry.groupsPerRow]
    omega
  have htotal : g.outputRows * g.inputRows / 16
      = tiles * g.scaleTilesPerRow * 512 := by
    rw [hcolumns, ← Nat.mul_assoc, Nat.mul_div_cancel _ (by decide), htiles, g.groups_eq]
    ring
  refine ⟨?_, ?_, ?_⟩
  · rintro ⟨row, group⟩ ⟨hrow, hgroup⟩
    obtain ⟨m, q, r, hq, hr, rfl⟩ := exists_row row
    obtain ⟨t, ht, l, hl, rfl⟩ := digits_iff.2 (g.groups_eq ▸ hgroup)
    rw [Set.mem_Iio] at hrow
    have hm : m < tiles := by omega
    have := digits_lt hm ht
    rw [Set.mem_Iio, htotal]
    dsimp only
    rw [scaleOffset_digits g hq hr hl]
    omega
  · rintro ⟨row, group⟩ ⟨-, hgroup⟩ ⟨row', group'⟩ ⟨-, hgroup'⟩ h
    obtain ⟨m, q, r, hq, hr, rfl⟩ := exists_row row
    obtain ⟨m', q', r', hq', hr', rfl⟩ := exists_row row'
    obtain ⟨t, ht, l, hl, rfl⟩ := digits_iff.2 (g.groups_eq ▸ hgroup)
    obtain ⟨t', ht', l', hl', rfl⟩ := digits_iff.2 (g.groups_eq ▸ hgroup')
    dsimp only at h
    rw [scaleOffset_digits g hq hr hl, scaleOffset_digits g hq' hr' hl'] at h
    have hinner : r = r' ∧ q = q' ∧ l = l' := by omega
    obtain ⟨rfl, rfl, rfl⟩ := hinner
    have hsame : m = m' ∧ t = t' := digits_inj ht ht' (by omega)
    rw [hsame.1, hsame.2]
  · intro i hi
    rw [Set.mem_Iio, htotal] at hi
    obtain ⟨m, hm, t, ht, hdigits⟩ := digits_iff.2
      (Nat.div_lt_of_lt_mul (Nat.mul_comm _ 512 ▸ hi) : i / 512 < _)
    refine ⟨(m * 128 + i / 4 % 4 * 32 + i % 512 / 16, t * 4 + i % 4), ⟨?_, ?_⟩, ?_⟩
    · rw [Set.mem_Iio]
      omega
    · rw [Set.mem_Iio, g.groups_eq]
      omega
    · dsimp only
      rw [scaleOffset_digits g (by omega) (by omega) (by omega), ← hdigits]
      omega

end

-- ============ the rows

variable (k : Kernel)

/-- The order the kernel takes the rows of 128 in: quartiles 32 apart. -/
def shuffle (i : Nat) : Nat := i / 128 * 128 + i % 128 / 4 + i % 4 * 32

theorem shuffle_digits {m q r : Nat} (hq : q < 4) (hr : r < 32) :
    shuffle (m * 128 + (r * 4 + q)) = m * 128 + q * 32 + r := by
  have htile : (m * 128 + (r * 4 + q)) / 128 = m := by omega
  have hinner : (m * 128 + (r * 4 + q)) % 128 = r * 4 + q := by omega
  have hlow : (m * 128 + (r * 4 + q)) % 4 = q := by omega
  rw [shuffle, htile, hinner, hlow]
  omega

theorem shuffle_perm {n : Nat} (hn : 128 ∣ n) :
    ((range n).map shuffle).Perm (range n) := by
  have hdigits (i : Nat) : ∃ m q r, q < 4 ∧ r < 32 ∧ i = m * 128 + (r * 4 + q) :=
    ⟨i / 128, i % 128 % 4, i % 128 / 4, by omega, by omega, by omega⟩
  refine (perm_ext_iff_of_nodup ?_ nodup_range).2 fun row => ?_
  · refine Nodup.map_on ?_ nodup_range
    intro i _ j _ h
    obtain ⟨m, q, r, hq, hr, rfl⟩ := hdigits i
    obtain ⟨m', q', r', hq', hr', rfl⟩ := hdigits j
    rw [shuffle_digits hq hr, shuffle_digits hq' hr'] at h
    omega
  · rw [mem_map, mem_range]
    constructor
    · rintro ⟨i, hi, rfl⟩
      obtain ⟨m, q, r, hq, hr, rfl⟩ := hdigits i
      rw [mem_range] at hi
      rw [shuffle_digits hq hr]
      omega
    · intro hrow
      obtain ⟨m, q, r, hq, hr, rfl⟩ := exists_row row
      refine ⟨m * 128 + (r * 4 + q), ?_, shuffle_digits hq hr⟩
      rw [mem_range]
      omega

variable {flatRow : Nat}

/-- Where a block's rows are: which tile of 128, and which of the 32
quartets of the tile. -/
theorem Kernel.blockRow (block : Nat) (hflat : flatRow < k.schedule.rowsPerCta) :
    rmodBase k block + flatRow / 4 < 32
      ∧ block * k.schedule.rowsPerCta + flatRow
        = mTile k block * 128 + (rmodBase k block * 4 + flatRow) := by
  obtain ⟨quartets, hq⟩ := k.quartets
  have hctas : k.schedule.rowsPerCta * k.schedule.ctasPerM128 = 128 :=
    Nat.mul_div_cancel' k.tile
  have hpos : 0 < k.schedule.ctasPerM128 := by
    by_contra hzero
    rw [Nat.eq_zero_of_not_pos hzero] at hctas
    omega
  have hlt := Nat.mod_lt block hpos
  have hmod : block - mTile k block * k.schedule.ctasPerM128
      = block % k.schedule.ctasPerM128 := by
    rw [Nat.mod_eq_sub_mul_div, mTile, Nat.mul_comm]
  have hbase : rmodBase k block * 4
      = block % k.schedule.ctasPerM128 * k.schedule.rowsPerCta := by
    rw [rmodBase, hmod, Nat.mul_assoc, Nat.div_mul_cancel k.quartets]
  have hroom : (block % k.schedule.ctasPerM128 + 1) * k.schedule.rowsPerCta ≤ 128 := by
    rw [← hctas, Nat.mul_comm k.schedule.rowsPerCta]
    exact Nat.mul_le_mul_right _ hlt
  rw [Nat.succ_mul] at hroom
  have hblock : block * k.schedule.rowsPerCta
      = mTile k block * 128 + rmodBase k block * 4 := by
    rw [hbase, ← hctas, Nat.mul_comm k.schedule.rowsPerCta, ← Nat.mul_assoc,
      ← Nat.add_mul, mTile, Nat.div_add_mod']
  omega

/-- A row of a block, in its tile. -/
theorem parentRow_digits (block flatRow : Nat) :
    parentRow k block flatRow
      = mTile k block * 128 + flatRow % 4 * 32 + (rmodBase k block + flatRow / 4) := by
  simp only [parentRow, and_three]
  omega

theorem parentRow_eq (block : Nat) (hflat : flatRow < k.schedule.rowsPerCta) :
    parentRow k block flatRow
      = shuffle (block * k.schedule.rowsPerCta + flatRow) := by
  obtain ⟨hlt, hrow⟩ := k.blockRow block hflat
  have hsplit : rmodBase k block * 4 + flatRow
      = (rmodBase k block + flatRow / 4) * 4 + flatRow % 4 := by omega
  rw [hrow, hsplit, shuffle_digits (by omega) hlt, parentRow_digits]

/-- The stored place of a scale of a block's row. -/
theorem scaleOffset_row (block : Nat) {t l : Nat}
    (hflat : flatRow < k.schedule.rowsPerCta) (hl : l < 4) :
    scaleOffset k.geometry (parentRow k block flatRow) (t * 4 + l)
      = (mTile k block * k.geometry.scaleTilesPerRow + t) * 512
        + (rmodBase k block + flatRow / 4) * 16 + flatRow % 4 * 4 + l := by
  rw [parentRow_digits, scaleOffset_digits _ (by omega) (k.blockRow block hflat).1 hl]

-- ============ the staging

variable (o : Operands)

/-- What a block stages: to each of its rows, each of the row's scales. -/
theorem mem_stage (block : Nat) {write : (_ : Nat) × UInt8} :
    write ∈ (gridStride
        (k.geometry.scaleTilesPerRow * (k.schedule.rowsPerCta / 4))
        k.schedule.threads).flatMap
        (stageTask k o (mTile k block) (rmodBase k block))
      ↔ ∃ t < k.geometry.scaleTilesPerRow, ∃ flatRow < k.schedule.rowsPerCta,
        ∃ l < 4, write = ⟨flatRow * k.geometry.groupsPerRow + (t * 4 + l),
        o.scales (scaleOffset k.geometry (parentRow k block flatRow) (t * 4 + l))⟩ := by
  obtain ⟨quartets, hquartets⟩ := k.quartets
  have hrows : k.schedule.rowsPerCta / 4 = quartets := by omega
  have hthreads : 0 < k.schedule.threads := Nat.mul_pos k.schedule.warps.1 (by decide)
  -- The task of a column tile and a quartet of rows.
  have htask {t quartet : Nat} (hq : quartet < quartets) :
      (t * quartets + quartet) / quartets = t
        ∧ t * quartets + quartet - t * quartets = quartet := by
    rw [Nat.mul_comm, Nat.mul_add_div (by omega), Nat.div_eq_of_lt hq]
    omega
  simp only [mem_flatMap, mem_gridStride hthreads, stageTask, mem_map,
    mem_range, hrows]
  constructor
  · rintro ⟨task, hmem, quartile, hquartile, l, hl, rfl⟩
    obtain ⟨t, ht, quartet, hq, rfl⟩ := digits_iff.2 hmem
    refine ⟨t, ht, quartet * 4 + quartile, by omega, l, hl, ?_⟩
    have hdiv : (quartet * 4 + quartile) / 4 = quartet := by omega
    have hmod : (quartet * 4 + quartile) % 4 = quartile := by omega
    rw [scaleOffset_row k block (by omega) hl, (htask hq).1, (htask hq).2, hdiv, hmod,
      Nat.mul_comm 4, Nat.add_assoc _ (t * 4)]
  · rintro ⟨t, ht, flatRow, hflat, l, hl, rfl⟩
    have hq : flatRow / 4 < quartets := by omega
    have hsplit : flatRow / 4 * 4 + flatRow % 4 = flatRow := by omega
    refine ⟨t * quartets + flatRow / 4, digits_lt ht hq, flatRow % 4, by omega, l, hl, ?_⟩
    rw [scaleOffset_row k block hflat hl, (htask hq).1, (htask hq).2, hsplit,
      Nat.mul_comm 4, Nat.add_assoc _ (t * 4)]

theorem stageScales_eq (hstaged : k.schedule.scaleAccess = .stagedRaw)
    (block : Nat) (shared : Plane) {group : Nat}
    (hflat : flatRow < k.schedule.rowsPerCta) (hgroup : group < k.geometry.groupsPerRow) :
    stageScales k o (mTile k block) (rmodBase k block) shared
        (flatRow * k.geometry.groupsPerRow + group)
      = o.scales (scaleOffset k.geometry (parentRow k block flatRow) group) := by
  obtain ⟨t, ht, l, hl, rfl⟩ := digits_iff.2 (k.geometry.groups_eq ▸ hgroup)
  simp only [stageScales, hstaged]
  refine Launch.commit_of_mem
    ((mem_stage k o block).2 ⟨t, ht, flatRow, hflat, l, hl, rfl⟩) ?_
  intro write hwrite hsame
  obtain ⟨t', ht', flatRow', hflat', l', hl', rfl⟩ := (mem_stage k o block).1 hwrite
  have hgroup' : t' * 4 + l' < k.geometry.groupsPerRow :=
    k.geometry.groups_eq ▸ digits_lt ht' hl'
  obtain ⟨rfl, hgroups⟩ := digits_inj hgroup' hgroup hsame
  rw [hgroups]

-- ============ the coefficients

/-- The position of a lane's pair among the pairs of a row. -/
def pairIndex (phase lane pair : Nat) : Nat :=
  (phase * 32 + lane) * k.schedule.pairsPerLane + pair

/-- The group of a pair: the lane's byte in its subgroup's word, and the
pair's group in the lane. -/
theorem lane_group {values lane pair : Nat}
    (hvalues : values = 8 ∨ values = 16 ∨ values = 32) (hlane : lane < 32)
    (hpair : pair < values / 2) (phase : Nat) :
    lane % (64 / values) / lanesPerGroup values * groupsPerLane values
        + (lane * values % 16 + pair * 2) / 16 < 4
      ∧ (phase * (values / 2) + lane / (64 / values)) * 4
        + (lane % (64 / values) / lanesPerGroup values * groupsPerLane values
          + (lane * values % 16 + pair * 2) / 16)
        = 2 * ((phase * 32 + lane) * (values / 2) + pair) / 16
      ∧ (phase * 32 * values + lane * values) / 16
        + (lane * values % 16 + pair * 2) / 16
        = 2 * ((phase * 32 + lane) * (values / 2) + pair) / 16
      ∧ lane / (64 / values) < values / 2 := by
  obtain rfl | rfl | rfl := hvalues
  all_goals
    simp only [lanesPerGroup, groupsPerLane, Nat.reduceLT, Nat.reduceDiv, if_true, if_false]
    omega

theorem and_subgroup {values : Nat}
    (hvalues : values = 8 ∨ values = 16 ∨ values = 32) (lane : Nat) :
    lane &&& (64 / values - 1) = lane % (64 / values) := by
  obtain rfl | rfl | rfl := hvalues
  · exact Nat.and_two_pow_sub_one_eq_mod lane 3
  · exact Nat.and_two_pow_sub_one_eq_mod lane 2
  · exact Nat.and_two_pow_sub_one_eq_mod lane 1

/-- Every lane of a subgroup gets the word its first lane loads. -/
theorem loadStagedScaleWord_eq (shared : Plane) (localRow phase lane : Nat) :
    loadStagedScaleWord k shared localRow phase lane
      = loadU32 shared (localRow * k.geometry.groupsPerRow
        + (phase * (k.schedule.valuesPerLane / 2)
        + lane / (64 / k.schedule.valuesPerLane)) * 4) := by
  have hvalues := k.schedule.values
  have hwidth : 0 < 64 / k.schedule.valuesPerLane := by
    obtain h | h | h := hvalues
    all_goals
      rw [h]
      decide
  have hphase : 32 * k.schedule.valuesPerLane / 16
      = k.schedule.valuesPerLane / 2 * 4 := by omega
  simp only [loadStagedScaleWord, and_subgroup hvalues]
  rw [if_pos (Nat.mul_mod_left _ _), Nat.mul_div_cancel _ hwidth, hphase,
    ← Nat.mul_assoc, Nat.add_mul]

theorem coefficient_eq (block : Nat) (shared : Plane) {phase lane pair : Nat}
    (hflat : flatRow < k.schedule.rowsPerCta)
    (hphase : phase < k.geometry.inputRows / (32 * k.schedule.valuesPerLane))
    (hlane : lane < 32) (hpair : pair < k.schedule.pairsPerLane) :
    coefficient k o (stageScales k o (mTile k block) (rmodBase k block) shared)
        (parentRow k block flatRow) flatRow phase lane
        (((lane * k.schedule.valuesPerLane &&& 15) + pair * 2) / 16)
      = o.e4m3 (unswizzleScales k.geometry o.scales (parentRow k block flatRow)
        (2 * pairIndex k phase lane pair / 16)) * o.inverseWeightDivisor := by
  have hvalues := k.schedule.values
  obtain ⟨hbyte, hstaged, hdirect, hsub⟩ := lane_group hvalues hlane hpair phase
  have hmask : lane * k.schedule.valuesPerLane &&& 15
      = lane * k.schedule.valuesPerLane % 16 := Nat.and_two_pow_sub_one_eq_mod _ 4
  have htiles : k.geometry.scaleTilesPerRow
      = k.geometry.inputRows / (32 * k.schedule.valuesPerLane)
        * (k.schedule.valuesPerLane / 2) := by
    obtain ⟨n, hn⟩ := k.phases
    rw [Geometry.scaleTilesPerRow, hn, Nat.mul_div_cancel_left n (by omega)]
    obtain h | h | h := hvalues
    all_goals
      rw [h]
      omega
  have htile := htiles ▸ digits_lt hphase hsub
  have hgroup : 2 * pairIndex k phase lane pair / 16 < k.geometry.groupsPerRow := by
    have hgroups := k.geometry.groups_eq
    rw [pairIndex, Schedule.pairsPerLane, ← hstaged]
    omega
  rw [unswizzleScales_eq _ _ _ hgroup, coefficient, hmask]
  cases hmode : k.schedule.scaleAccess with
  | stagedRaw =>
    dsimp only
    rw [loadStagedScaleWord_eq, and_subgroup hvalues, loadU32_ofNat _ _ hbyte,
      Nat.add_assoc, hstaged, ← stageScales_eq k o hmode block shared hflat hgroup]
    rfl
  | direct =>
    dsimp only
    rw [hdirect]
    rfl

-- ============ the sum

/-- What the chains of a row hold together. -/
def chainSum (accumulators : Nat → ℚ) : ℚ :=
  ∑ chain ∈ Finset.range k.schedule.accumulatorChains, accumulators chain

/-- Whichever chain a term goes to. -/
theorem chainSum_update (accumulators : Nat → ℚ) (i : Nat) (term : ℚ) :
    chainSum k (Function.update accumulators (i &&& (k.schedule.accumulatorChains - 1))
        (term + accumulators (i &&& (k.schedule.accumulatorChains - 1))))
      = chainSum k accumulators + term := by
  have hchains := k.schedule.chains.1
  have hchain : i &&& (k.schedule.accumulatorChains - 1)
      ∈ Finset.range k.schedule.accumulatorChains := by
    have := Nat.and_le_right (n := i) (m := k.schedule.accumulatorChains - 1)
    rw [Finset.mem_range]
    omega
  rw [chainSum, chainSum, Finset.sum_update_of_mem hchain, Finset.sdiff_singleton_eq_erase,
    ← Finset.add_sum_erase _ accumulators hchain]
  ring

/-- A weight, its scale and its activation. -/
def term (row column : Nat) : ℚ :=
  o.e2m1 (code k.geometry o.codes row column)
    * (o.e4m3 (unswizzleScales k.geometry o.scales row (column / 16))
      * o.inverseWeightDivisor) * o.x column

/-- A turn of the pair loop adds the two terms of its pair. -/
theorem chainSum_pairStep (block : Nat) (shared : Plane) {phase lane pair : Nat}
    (hflat : flatRow < k.schedule.rowsPerCta)
    (hphase : phase < k.geometry.inputRows / (32 * k.schedule.valuesPerLane))
    (hlane : lane < 32) (hpair : pair < k.schedule.pairsPerLane)
    (accumulators : Nat → ℚ) :
    chainSum k (pairStep k o (stageScales k o (mTile k block) (rmodBase k block) shared)
        (parentRow k block flatRow) flatRow phase lane accumulators pair)
      = chainSum k accumulators
        + (term k o (parentRow k block flatRow) (2 * pairIndex k phase lane pair)
        + term k o (parentRow k block flatRow)
          (2 * pairIndex k phase lane pair + 1)) := by
  have hvalues := k.schedule.values
  have hindex : phase * (32 * k.schedule.valuesPerLane / 2)
      + lane * k.schedule.pairsPerLane + pair = pairIndex k phase lane pair := by
    have : 32 * k.schedule.valuesPerLane / 2 = 32 * k.schedule.pairsPerLane := by
      rw [Schedule.pairsPerLane]
      omega
    rw [pairIndex, this, Nat.add_mul, Nat.mul_assoc]
  have hoffset : parentRow k block flatRow * k.geometry.codeBytesPerRow
        + phase * (32 * k.schedule.valuesPerLane / 2)
        + lane * (k.schedule.valuesPerLane / 2) + 4 * (pair / 4) + pair % 4
      = parentRow k block flatRow * k.geometry.codeBytesPerRow
        + pairIndex k phase lane pair := by
    rw [← hindex, Schedule.pairsPerLane]
    omega
  have hsame : (2 * pairIndex k phase lane pair + 1) / 16
      = 2 * pairIndex k phase lane pair / 16 := by omega
  have hbyte : (2 * pairIndex k phase lane pair + 1) / 2 = pairIndex k phase lane pair := by
    omega
  have hlow : 2 * pairIndex k phase lane pair % 2 = 0 := Nat.mul_mod_right 2 _
  have hhigh : (2 * pairIndex k phase lane pair + 1) % 2 ≠ 0 := by omega
  simp only [pairStep, and_three, loadU32_byte _ _ (Nat.mod_lt pair (by decide : 0 < 4)),
    hoffset, hindex]
  rw [chainSum_update, chainSum_update, coefficient_eq k o block shared hflat hphase
    hlane hpair, term, term, code, code, hsame, hbyte, Nat.mul_div_cancel_left _ (by decide),
    if_pos hlow, if_neg hhigh, add_assoc]

/-- Lane zero holds the row of the product. -/
theorem total_eq (block : Nat) (shared : Plane)
    (hflat : flatRow < k.schedule.rowsPerCta) :
    warpReduceSum (laneTotal k o
        (stageScales k o (mTile k block) (rmodBase k block) shared)
        (parentRow k block flatRow) flatRow) 0
      = rowProduct k.geometry o (parentRow k block flatRow) := by
  have hlane {lane : Nat} (hlane : lane < 32) :
      laneTotal k o (stageScales k o (mTile k block) (rmodBase k block) shared)
          (parentRow k block flatRow) flatRow lane
        = ∑ phase ∈ Finset.range (k.geometry.inputRows / (32 * k.schedule.valuesPerLane)),
            ∑ pair ∈ Finset.range k.schedule.pairsPerLane,
              (term k o (parentRow k block flatRow) (2 * pairIndex k phase lane pair)
                + term k o (parentRow k block flatRow)
                  (2 * pairIndex k phase lane pair + 1)) := by
    have hchains : laneTotal k o (stageScales k o (mTile k block) (rmodBase k block) shared)
        (parentRow k block flatRow) flatRow lane = chainSum k _ :=
      (foldl_adds id (fun _ _ _ => rfl) 0).trans (zero_add _)
    refine hchains.trans ((foldl_adds (chainSum k) (fun accumulators phase hphase =>
      foldl_adds (chainSum k) (fun accumulators pair hpair =>
        chainSum_pairStep k o block shared hflat hphase hlane hpair accumulators)
        accumulators) _).trans ?_)
    rw [chainSum, Finset.sum_const_zero, zero_add]
  have hcolumns : 2 * (k.geometry.inputRows / (32 * k.schedule.valuesPerLane) * 32
      * k.schedule.pairsPerLane) = k.geometry.inputRows := by
    have hvalues := k.schedule.values
    have heven : 2 * k.schedule.pairsPerLane = k.schedule.valuesPerLane := by
      rw [Schedule.pairsPerLane]
      omega
    calc _ = k.geometry.inputRows / (32 * k.schedule.valuesPerLane)
          * (32 * (2 * k.schedule.pairsPerLane)) := by ring
      _ = k.geometry.inputRows := by rw [heven, Nat.div_mul_cancel k.phases]
  rw [warpReduceSum_zero, Finset.sum_congr rfl fun lane h =>
    hlane (Finset.mem_range.1 h), Finset.sum_comm]
  simp only [pairIndex]
  rw [sum_range_blocks (fun i => ∑ pair ∈ Finset.range k.schedule.pairsPerLane,
      (term k o (parentRow k block flatRow) (2 * (i * k.schedule.pairsPerLane + pair))
        + term k o (parentRow k block flatRow)
          (2 * (i * k.schedule.pairsPerLane + pair) + 1))),
    sum_range_blocks (fun i => term k o (parentRow k block flatRow) (2 * i)
      + term k o (parentRow k block flatRow) (2 * i + 1)),
    sum_range_pairs, hcolumns, rowProduct, Finset.sum_mul]
  refine Finset.sum_congr rfl fun column _ => ?_
  rw [term]
  ring

-- ============ the grid

variable {β : Type} (epilogue : Nat → Nat → ℚ → β)

/-- The stores of a block, row after row. -/
theorem blockStores_eq (shared : Plane) (block : Nat) :
    blockStores k o epilogue shared block
      = (range k.schedule.rowsPerCta).map fun flatRow =>
        let row := shuffle (block * k.schedule.rowsPerCta + flatRow)
        ⟨row, 0, epilogue row 0 (rowProduct k.geometry o row)⟩ := by
  rw [Schedule.rowsPerCta, ← flatMap_rows, map_flatMap, blockStores]
  refine flatMap_congr fun warp hwarp => ?_
  rw [map_map]
  refine map_congr_left fun localRow hlocal => ?_
  have hflat : warp * k.schedule.rowsPerWarp + localRow < k.schedule.rowsPerCta :=
    digits_lt (mem_range.1 hwarp) (mem_range.1 hlocal)
  simp only [rowStore, Function.comp, total_eq k o block shared hflat]
  rw [parentRow_eq k block hflat]
  rfl

/-- The stores of the grid, row after row. -/
theorem gridStores_eq (shared : Nat → Plane) :
    gridStores k o epilogue shared
      = ((range k.geometry.outputRows).map shuffle).map fun row =>
        ⟨row, 0, epilogue row 0 (rowProduct k.geometry o row)⟩ := by
  have hrows : k.schedule.rowsPerCta ∣ k.geometry.outputRows :=
    k.tile.trans k.geometry.rowTiles
  conv_rhs => rw [← Nat.div_mul_cancel hrows, ← flatMap_rows, map_flatMap, map_flatMap]
  refine flatMap_congr fun block _ => ?_
  rw [blockStores_eq, map_map, map_map]
  rfl

/-- Every row of the product is stored once; its value takes each weight
with the scale the reference reads; the stored places of the scales are
all places of their plane. -/
theorem gemv_exact (shared : Nat → Plane) :
    ((gridStores k o epilogue shared).map Store.row).Perm
        (List.range k.geometry.outputRows)
      ∧ (∀ store ∈ gridStores k o epilogue shared, store.column = 0
        ∧ store.value = epilogue store.row 0 (rowProduct k.geometry o store.row))
      ∧ Set.BijOn (fun p : Nat × Nat => scaleOffset k.geometry p.1 p.2)
        (Set.Iio k.geometry.outputRows ×ˢ Set.Iio k.geometry.groupsPerRow)
        (Set.Iio (k.geometry.outputRows * k.geometry.inputRows / 16)) := by
  rw [gridStores_eq]
  refine ⟨?_, fun store hstore => ?_, scaleOffset_bijOn k.geometry⟩
  · rw [List.map_map]
    exact (List.map_id' _).symm ▸ shuffle_perm k.geometry.rowTiles
  · obtain ⟨row, -, rfl⟩ := List.mem_map.1 hstore
    exact ⟨rfl, rfl⟩

/-- `Nvfp4MuseKeyValueGeometry` with
`Nvfp4LinearDecodeProductionSchedule`. -/
def museKeyValue : Kernel where
  geometry := ⟨256, 6656, by decide, by decide, by decide⟩
  schedule := ⟨8, 2, 16, 4, .stagedRaw, by decide, by decide, by decide,
    by decide, by decide⟩
  phases := by decide
  quartets := by decide
  tile := by decide

/-- The values of E2M1 and of positive E4M3, on changing bytes. -/
def floatOperands : Operands where
  x := fun column => column - 3
  codes := fun byte => UInt8.ofNat (7 * byte)
  scales := fun byte => UInt8.ofNat (byte % 120)
  inverseWeightDivisor := 1 / 6
  e2m1 := fun nibble =>
    (if nibble < 8 then 1 else -1) * [0, 1/2, 1, 3/2, 2, 3, 4, 6].getD (nibble % 8) 0
  e4m3 := fun byte =>
    if byte < 8 then byte.toNat / 512
    else ((8 + byte.toNat % 8) * 2 ^ (byte.toNat / 8) : Nat) / 1024

theorem gemv_exact_muse_key_value :
    ((gridStores museKeyValue floatOperands (fun _ _ value => value)
        fun _ _ => 0).map Store.row).Perm (List.range 256)
      ∧ ∀ store ∈ gridStores museKeyValue floatOperands
          (fun _ _ value => value) fun _ _ => 0,
        store.value = rowProduct museKeyValue.geometry floatOperands store.row := by
  obtain ⟨hrows, hvalues, -⟩ := gemv_exact museKeyValue floatOperands
    (fun _ _ value => value) fun _ _ => 0
  exact ⟨hrows, fun store hstore => (hvalues store hstore).2⟩

end Ginfer.Ops.Nvfp4
