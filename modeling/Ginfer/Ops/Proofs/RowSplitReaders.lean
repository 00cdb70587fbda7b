/-
The embedding kernels and the Python reference read the same weights.

Whichever embedding kernel the launcher selects, every output is written,
with the weight of its token's row (`Gathers`). The grouped kernels count
groups by the logical row; they are selected only where that is the
padded one.

The reference decoders find the code of a weight where the device does
(`unpackCodes_eq`, `dequantizer_eq`), which closes the circle
(`row_split_readers_agree`).
-/
import Ginfer.Ops.Proofs.RowSplitDecode

namespace Ginfer.Ops.RowSplit

open Ginfer.Lib Container List
open Ginfer.Frontend (Bytes)

-- ============ the kernels

theorem unpackQ6Code_eq (w : Weight) (group lane : Nat) :
    unpackQ6Code (Plane.advance w.qdata (group * 32))
      (Plane.advance w.qhigh (group * 16)) lane = w.code6 group lane := by
  have hbyte := (w.qdata (group * 32 + lane / 2)).toNat_lt
  have hcode : ∀ u : Nat, u < 64 →
      (if u &&& 0x20 ≠ 0 then (u : Int) - 64 else u) = twos 32 u := by
    decide
  have hhalf : lane >>> 1 = lane / 2 := Nat.shiftRight_eq_div_pow lane 1
  have heighth : (lane * 2) >>> 3 = lane / 4 := by
    rw [Nat.shiftRight_eq_div_pow]
    omega
  have hshift : lane * 2 &&& 7 = lane % 4 * 2 := by
    rw [show (7 : Nat) = 2 ^ 3 - 1 from rfl, Nat.and_two_pow_sub_one_eq_mod]
    omega
  have hlow : (if lane &&& 1 ≠ 0
        then (w.qdata (group * 32 + lane / 2)).toNat >>> 4
        else (w.qdata (group * 32 + lane / 2)).toNat &&& 0x0f)
      = w.low group lane := by
    rw [and_one, and_low, Nat.shiftRight_eq_div_pow, Weight.low]
    by_cases heven : lane % 2 = 0
    · rw [if_neg (by omega), if_pos heven]
    · rw [if_pos heven, if_neg heven]
  have hlt := w.low_lt group lane
  have hlt' := w.high6_lt group lane
  unfold unpackQ6Code Plane.advance
  dsimp only
  rw [hhalf, heighth, hshift, hlow, and_three, Nat.shiftRight_eq_div_pow,
    nibble_or hlt]
  exact hcode (w.low group lane + 16 * w.high6 group lane) (by omega)

theorem scaleBits_eq (w : Weight) (group : Nat) :
    scaleBits w.scales group = w.scaleWord group := by
  have hbyte := (w.scales (group * 2)).toNat_lt
  rw [scaleBits, Nat.or_comm, ← Nat.shiftLeft_add_eq_or_of_lt hbyte,
    Nat.shiftLeft_eq, Weight.scaleWord, loadU16]
  omega

theorem q6GroupWeight_eq (w : Weight) (group lane : Nat) :
    q6GroupWeight w group lane
      = .ofInt (w.code6 group lane) (w.scaleWord group) := by
  rw [q6GroupWeight, unpackQ6Code_eq, scaleBits_eq]

theorem w8GroupWeight_eq (w : Weight) (group lane : Nat) :
    w8GroupWeight w group lane
      = .ofInt (w.code8 group lane) (w.scaleWord group) := by
  rw [w8GroupWeight, scaleBits_eq]
  rfl

/-- Every output is written, and with its weight. -/
structure Gathers (writes : Writes) (weight : Nat → Nat → Decoded)
    (ids : Nat → Nat) (d tokens : Nat) : Prop where
  right : ∀ write ∈ writes, write.1 < d * tokens ∧
    write.2 = weight (ids (write.1 / d)) (write.1 % d)
  all : ∀ i < d * tokens, ∃ write ∈ writes, write.1 = i

section

variable (w : Weight) (ids : Nat → Nat) {d tokens : Nat}

theorem gatherGeneric_gathers {bits groupSize : Nat}
    {weight : Weight → Nat → Nat → Decoded}
    (hweight : ∀ group lane, weight w group lane
      = .ofInt (w.code bits group lane) (w.scaleWord group)) :
    Gathers (gatherGeneric w ids d tokens groupSize weight)
      (w.weightAt bits groupSize) ids d tokens := by
  have hgrid : 0 < gridFor (d * tokens) * 128 := by
    rw [gridFor]
    omega
  constructor
  · intro write hwrite
    obtain ⟨i, hi, rfl⟩ := mem_map.mp hwrite
    rw [mem_gridStride hgrid] at hi
    refine ⟨hi, ?_⟩
    have hcolumn : i - i / d * d = i % d := by
      rw [mul_comm]
      exact (Nat.mod_def i d).symm
    have hlane : i % d - i % d / groupSize * groupSize
        = i % d % groupSize := by
      rw [mul_comm]
      exact (Nat.mod_def _ _).symm
    dsimp only
    rw [hcolumn, hlane, hweight, Weight.weightAt]
  · intro i hi
    exact ⟨_, mem_map.mpr ⟨i, (mem_gridStride hgrid).mpr hi, rfl⟩, rfl⟩

/-- The digits of an output of a row of whole groups. -/
theorem grouped_digits {t d g groupSize lane : Nat}
    (hcolumn : g * groupSize + lane < d) (hlane : lane < groupSize) :
    (t * d + g * groupSize + lane) / d = t ∧
      (t * d + g * groupSize + lane) % d = g * groupSize + lane ∧
      (g * groupSize + lane) / groupSize = g ∧
      (g * groupSize + lane) % groupSize = lane := by
  refine ⟨?_, ?_, ?_, ?_⟩
  · rw [add_assoc, mul_comm t, Nat.mul_add_div (by omega),
      Nat.div_eq_of_lt hcolumn, add_zero]
  · rw [add_assoc, mul_comm t, Nat.mul_add_mod, Nat.mod_eq_of_lt hcolumn]
  · rw [mul_comm g, Nat.mul_add_div (by omega), Nat.div_eq_of_lt hlane,
      add_zero]
  · rw [mul_comm g, Nat.mul_add_mod, Nat.mod_eq_of_lt hlane]

/-- An output of a token's row. -/
theorem output_lt {t d column tokens : Nat} (ht : t < tokens)
    (hcolumn : column < d) : t * d + column < d * tokens := by
  have hrows : (t + 1) * d ≤ tokens * d := Nat.mul_le_mul_right d ht
  rw [Nat.succ_mul] at hrows
  rw [mul_comm d]
  omega

theorem embedGatherQ6Grouped_gathers (hpadded : d = w.paddedColumns)
    (hgroups : d % 64 = 0) (hd : 0 < d) (htokens : 0 < tokens) :
    Gathers (embedGatherQ6Grouped w ids d tokens) (w.weightAt 6 64) ids d
      tokens := by
  obtain ⟨blocks, hblocks⟩ : ∃ blocks, blocks = (d / 64 + 2 - 1) / 2 :=
    ⟨_, rfl⟩
  have hpos : 0 < blocks := by omega
  have hgrid : max 1 (tokens * blocks) = tokens * blocks := by
    have := mul_pos htokens hpos
    omega
  unfold embedGatherQ6Grouped
  dsimp only
  rw [← hblocks, hgrid]
  constructor
  · rintro write hwrite
    obtain ⟨⟨block, thread⟩, hmem, hsome⟩ := mem_filterMap.mp hwrite
    rw [mem_product, mem_range, mem_range] at hmem
    obtain ⟨hblock, hthread⟩ := hmem
    dsimp only at hsome
    by_cases hlast : d / 64 ≤ (block - block / blocks * blocks) * 2 + thread / 64
    · rw [if_pos hlast] at hsome
      cases hsome
    · rw [if_neg hlast] at hsome
      cases hsome
      have htoken : block / blocks < tokens :=
        Nat.div_lt_of_lt_mul (by rwa [mul_comm] at hblock)
      obtain ⟨g, hg⟩ : ∃ g, g = (block - block / blocks * blocks) * 2 +
          thread / 64 := ⟨_, rfl⟩
      rw [← hg] at hlast ⊢
      have hlane : thread - thread / 64 * 64 < 64 := by omega
      have hcolumn : g * 64 + (thread - thread / 64 * 64) < d := by omega
      obtain ⟨htoken', hcolumn', hgroup, hitem⟩ :=
        grouped_digits (t := block / blocks) hcolumn hlane
      refine ⟨?_, ?_⟩
      · dsimp only
        rw [add_assoc]
        exact output_lt htoken hcolumn
      · dsimp only
        rw [htoken', hcolumn', Weight.weightAt, hgroup, hitem, ← hpadded,
          q6GroupWeight_eq]
        rfl
  · intro i hi
    have hcolumn : i % d < d := Nat.mod_lt i hd
    have htoken : i / d < tokens := Nat.div_lt_of_lt_mul hi
    have hslot : i % d / 64 / 2 < blocks := by omega
    have hblock : (i / d * blocks + i % d / 64 / 2) / blocks = i / d := by
      rw [mul_comm, Nat.mul_add_div hpos, Nat.div_eq_of_lt hslot, add_zero]
    have hgroup : (i / d * blocks + i % d / 64 / 2 - i / d * blocks) * 2
        + (i % d / 64 % 2 * 64 + i % d % 64) / 64 = i % d / 64 := by omega
    have hlane : i % d / 64 % 2 * 64 + i % d % 64
        - (i % d / 64 % 2 * 64 + i % d % 64) / 64 * 64 = i % d % 64 := by
      omega
    have hindex : i / d * d + i % d / 64 * 64 + i % d % 64 = i := by
      have hdigits := Nat.div_add_mod' i d
      omega
    refine ⟨(i, q6GroupWeight w (ids (i / d) * (d / 64) + i % d / 64)
      (i % d % 64)), mem_filterMap.mpr
        ⟨(i / d * blocks + i % d / 64 / 2,
          i % d / 64 % 2 * 64 + i % d % 64), ?_, ?_⟩, rfl⟩
    · rw [mem_product, mem_range, mem_range]
      refine ⟨?_, by omega⟩
      rw [mul_comm tokens]
      exact output_lt htoken hslot
    · dsimp only
      rw [hblock, hgroup, hlane, hindex, if_neg (by omega)]

theorem embedGatherW8Grouped2048_gathers (hpadded : w.paddedColumns = 2048) :
    Gathers (embedGatherW8Grouped2048 w ids tokens) (w.weightAt 8 32) ids
      2048 tokens := by
  constructor
  · intro write hwrite
    obtain ⟨⟨block, thread⟩, hmem, rfl⟩ := mem_map.mp hwrite
    rw [mem_product, mem_range, mem_range] at hmem
    obtain ⟨hblock, hthread⟩ := hmem
    have hcolumn : (block - block / 64 * 64) * 32 + thread < 2048 := by omega
    obtain ⟨htoken, hcolumn', hgroup, hitem⟩ :=
      grouped_digits (t := block / 64) hcolumn hthread
    refine ⟨by dsimp only; omega, ?_⟩
    dsimp only
    rw [htoken, hcolumn', Weight.weightAt, hgroup, hitem, hpadded,
      w8GroupWeight_eq]
    rfl
  · intro i hi
    refine ⟨_, mem_map.mpr ⟨(i / 32, i % 32), ?_, rfl⟩, ?_⟩
    · rw [mem_product, mem_range, mem_range]
      omega
    · dsimp only
      omega

/-- A byte of a loaded word. -/
theorem word_byte (plane : Plane) (i : Nat) {byte : Nat} (hbyte : byte < 4) :
    (loadU32 plane i >>> (byte * 8)) &&& 0xff
      = (plane (i + byte)).toNat := by
  have h0 := (plane i).toNat_lt
  have h1 := (plane (i + 1)).toNat_lt
  have h2 := (plane (i + 2)).toNat_lt
  have h3 := (plane (i + 3)).toNat_lt
  rw [Nat.shiftRight_eq_div_pow, show (0xff : Nat) = 2 ^ 8 - 1 from rfl,
    Nat.and_two_pow_sub_one_eq_mod]
  change ((plane i).toNat + 256 * (plane (i + 1)).toNat + 65536 *
    ((plane (i + 2)).toNat + 256 * (plane (i + 3)).toNat))
      / 2 ^ (byte * 8) % 2 ^ 8 = _
  interval_cases byte <;> simp <;> omega

/-- The byte a thread's word, pair and half lead to. -/
theorem row_byte {row tid word pair half column : Nat}
    (h : column = tid * 8 + (word * 2 + pair) * 2 + half) :
    row * 2048 + tid * 8 + word * 4 + (pair * 2 + half)
      = (row * 64 + column / 32) * 32 + column % 32 := by
  have hdigits := Nat.div_add_mod' column 32
  omega

theorem embedGatherW8Row2048_gathers (hpadded : w.paddedColumns = 2048) :
    Gathers (embedGatherW8Row2048 w ids tokens) (w.weightAt 8 32) ids
      2048 tokens := by
  constructor
  · intro write hwrite
    obtain ⟨⟨t, tid, word, pair, half⟩, hmem, rfl⟩ := mem_map.mp hwrite
    simp only [mem_product, mem_range] at hmem
    obtain ⟨ht, htid, hword, hpair, hhalf⟩ := hmem
    obtain ⟨column, hcolumn⟩ : ∃ column,
        column = tid * 8 + (word * 2 + pair) * 2 + half := ⟨_, rfl⟩
    have hindex : t * 2048 + tid * 8 + (word * 2 + pair) * 2 + half
        = t * 2048 + column := by omega
    have hshift : pair * 16 + half * 8 = (pair * 2 + half) * 8 := by omega
    have hbyte : ids t * 2048 + tid * 8 + word * 4 + (pair * 2 + half)
        = (ids t * 64 + column / 32) * 32 + column % 32 :=
      row_byte hcolumn
    have hgroup : tid * 8 / 32 = column / 32 := by omega
    refine ⟨by dsimp only; omega, ?_⟩
    dsimp only
    have htoken : (t * 2048 + column) / 2048 = t := by omega
    have hmod : (t * 2048 + column) % 2048 = column := by omega
    rw [hindex, hshift, word_byte _ _ (by omega), hbyte, hgroup, htoken,
      hmod, Weight.weightAt, hpadded, scaleBits_eq]
    rfl
  · intro i hi
    refine ⟨_, mem_map.mpr ⟨(i / 2048, i % 2048 / 8, i % 8 / 4,
      i % 4 / 2, i % 2), ?_, rfl⟩, ?_⟩
    · simp only [mem_product, mem_range]
      omega
    · dsimp only
      omega

/-- Whatever the launcher selects for a Q6 table. -/
theorem embeddingQ6_gathers (hcolumns : 0 < w.columns) :
    Gathers (embeddingQ6 w ids tokens) (w.weightAt 6 64) ids w.columns
      tokens := by
  rw [embeddingQ6]
  by_cases hempty : tokens = 0
  · rw [if_pos hempty, hempty]
    exact ⟨nofun, fun i hi => absurd hi (by omega)⟩
  rw [if_neg hempty, embedGatherQ6Launch]
  by_cases hgrouped : w.columns = w.paddedColumns ∧ w.columns % 64 = 0
  · rw [if_pos hgrouped]
    exact embedGatherQ6Grouped_gathers w ids hgrouped.1 hgrouped.2 hcolumns
      (by omega)
  · rw [if_neg hgrouped]
    exact gatherGeneric_gathers w ids (q6GroupWeight_eq w)

/-- And for a W8 table, by either route. -/
theorem embedGatherW8_2048Launch_gathers (route : W8EmbedRoute)
    (hpadded : w.paddedColumns = 2048) :
    Gathers (embedGatherW8_2048Launch w ids tokens route) (w.weightAt 8 32)
      ids 2048 tokens := by
  cases route with
  | auto =>
    by_cases hfew : tokens ≤ 6
    · rw [embedGatherW8_2048Launch, if_pos rfl, if_pos hfew, if_pos rfl]
      exact embedGatherW8Grouped2048_gathers w ids hpadded
    · rw [embedGatherW8_2048Launch, if_pos rfl, if_neg hfew, if_neg (by decide)]
      exact embedGatherW8Row2048_gathers w ids hpadded
  | grouped => exact embedGatherW8Grouped2048_gathers w ids hpadded
  | row => exact embedGatherW8Row2048_gathers w ids hpadded

theorem embeddingW8_gathers :
    Gathers (embeddingW8 w ids tokens) (w.weightAt 8 32) ids w.columns
      tokens := by
  rw [embeddingW8]
  by_cases hempty : tokens = 0
  · rw [if_pos hempty, hempty]
    exact ⟨nofun, fun i hi => absurd hi (by omega)⟩
  rw [if_neg hempty, embedGatherW8Launch]
  by_cases hfixed : w.columns = 2048 ∧ w.paddedColumns = 2048
  · rw [if_pos hfixed, hfixed.1]
    exact embedGatherW8_2048Launch_gathers w ids .auto hfixed.2
  · rw [if_neg hfixed]
    exact gatherGeneric_gathers w ids (w8GroupWeight_eq w)

end

-- ============ the reference

/-- A byte of a plane cut out of the payload. -/
theorem byteAt_cut (payload : Bytes) (offset : Nat) {size i : Nat}
    (h : i < size) :
    byteAt ((payload.drop offset).take size) i
      = (payload.getD (offset + i) 0).toNat := by
  rw [byteAt, getD_eq_getElem?_getD,
    List.getElem?_take_of_lt h, List.getElem?_drop,
    getD_eq_getElem?_getD]

/-- A byte of a group is inside the plane. -/
theorem group_byte_lt {rows groups size group i : Nat}
    (hgroup : group < rows * groups) (hi : i < size) :
    group * size + i < rows * (groups * size) := by
  have hmono : (group + 1) * size ≤ rows * groups * size :=
    Nat.mul_le_mul_right size hgroup
  rw [Nat.succ_mul, mul_assoc] at hmono
  omega

section

variable (payload : Bytes) {g : Artifact.RowSplitGeometry}
  {bits groupSize n k : Nat}
  (hsame : Artifact.SameGeometry g (Container.rowSplitOf bits groupSize n k))

/-- The planes Python splits off. -/
def pythonPlanes (payload : Bytes) (bits groupSize n k : Nat) :
    RowPlanes :=
  splitRowPlanes payload (rowSplitOf bits groupSize n k)

include hsame

omit hsame in
theorem base_eq (g : Artifact.RowSplitGeometry) {i : Nat}
    (h : i < n * (rowSplitOf bits groupSize n k).baseRowBytes) :
    byteAt (pythonPlanes payload bits groupSize n k).base i
      = ((rowSplitWeight payload g).qdata i).toNat := by
  have hcut := byteAt_cut payload 0 h
  rw [zero_add] at hcut
  exact hcut

theorem high_eq {i : Nat}
    (h : i < n * (rowSplitOf bits groupSize n k).highRowBytes) :
    byteAt (pythonPlanes payload bits groupSize n k).high i
      = ((rowSplitWeight payload g).qhigh i).toNat := by
  have hcut := byteAt_cut payload (rowSplitOf bits groupSize n k).highOffset h
  refine hcut.trans ?_
  rw [← hsame.highOffset]
  rfl

variable {group : Nat}

theorem scale_eq
    (h : group < n * (rowSplitOf bits groupSize n k).groupsPerRow) :
    wordAt (pythonPlanes payload bits groupSize n k).scale group
      = (rowSplitWeight payload g).scaleWord group := by
  have hfirst := byteAt_cut payload (rowSplitOf bits groupSize n k).scaleOffset
    (group_byte_lt h (show 0 < 2 by decide))
  have hsecond := byteAt_cut payload (rowSplitOf bits groupSize n k).scaleOffset
    (group_byte_lt h (show 1 < 2 by decide))
  rw [wordAt, mul_comm 2]
  refine (congrArg₂ (fun first second => first + 256 * second) hfirst
    hsecond).trans ?_
  rw [← hsame.scaleOffset]
  rfl

variable {item : Nat}

omit hsame in
/-- The nibbles of the reference. -/
theorem lowBits_eq (g : Artifact.RowSplitGeometry)
    (hbase : (rowSplitOf bits groupSize n k).baseRowBytes
      = (rowSplitOf bits groupSize n k).groupsPerRow * 32)
    (hgroup : group < n * (rowSplitOf bits groupSize n k).groupsPerRow)
    (hitem : item < 64) :
    lowBits (pythonPlanes payload bits groupSize n k) 32 group item
      = (rowSplitWeight payload g).low group item := by
  have hinside := group_byte_lt hgroup (show item / 2 < 32 by omega)
  rw [← hbase] at hinside
  have hbyte := ((rowSplitWeight payload g).qdata
    (group * 32 + item / 2)).toNat_lt
  rw [lowBits, base_eq payload g hinside, Weight.low]
  by_cases heven : item % 2 = 0
  · rw [if_pos heven, if_pos heven, and_low]
  · rw [if_neg heven, if_neg heven, and_low, Nat.shiftRight_eq_div_pow]
    omega

/-- The upper bits of the reference: `count` of them, all in one byte. -/
theorem highBits_eq {size : Nat}
    (hhigh : (rowSplitOf bits groupSize n k).highRowBytes
      = (rowSplitOf bits groupSize n k).groupsPerRow * size)
    (hgroup : group < n * (rowSplitOf bits groupSize n k).groupsPerRow)
    (hitem : item * (bits - 4) / 8 < size) :
    highBits (pythonPlanes payload bits groupSize n k) bits size group item
      = ((rowSplitWeight payload g).qhigh
        (group * size + item * (bits - 4) / 8)).toNat
        / 2 ^ (item * (bits - 4) % 8) % 2 ^ (bits - 4) := by
  have hinside := group_byte_lt hgroup hitem
  rw [← hhigh] at hinside
  rw [highBits, high_eq payload hsame hinside,
    Nat.shiftRight_eq_div_pow, Nat.shiftLeft_eq, one_mul,
    Nat.and_two_pow_sub_one_eq_mod]

omit hsame in
theorem highBits5_eq (hsame : Artifact.SameGeometry g (rowSplitOf 5 64 n k))
    (hgroup : group < n * (rowSplitOf 5 64 n k).groupsPerRow)
    (hitem : item < 64) :
    highBits (pythonPlanes payload 5 64 n k) 5 8 group item
      = (rowSplitWeight payload g).high5 group item := by
  have hinside : item * (5 - 4) / 8 < 8 := by omega
  have hhigh : (rowSplitOf 5 64 n k).highRowBytes
      = (rowSplitOf 5 64 n k).groupsPerRow * 8 := rfl
  rw [highBits_eq payload hsame hhigh hgroup hinside, Weight.high5]
  simp only [Nat.reduceSub, mul_one, Nat.reducePow]

omit hsame in
theorem highBits6_eq (hsame : Artifact.SameGeometry g (rowSplitOf 6 64 n k))
    (hgroup : group < n * (rowSplitOf 6 64 n k).groupsPerRow)
    (hitem : item < 64) :
    highBits (pythonPlanes payload 6 64 n k) 6 16 group item
      = (rowSplitWeight payload g).high6 group item := by
  have hinside : item * (6 - 4) / 8 < 16 := by omega
  have hbyte : item * 2 / 8 = item / 4 := by omega
  have hshift : item * 2 % 8 = item % 4 * 2 := by omega
  have hhigh : (rowSplitOf 6 64 n k).highRowBytes
      = (rowSplitOf 6 64 n k).groupsPerRow * 16 := rfl
  rw [highBits_eq payload hsame hhigh hgroup hinside, Weight.high6]
  simp only [Nat.reduceSub, hbyte, hshift, Nat.reducePow]

end

/-- The reference's sign. -/
theorem signed_eq_twos : (∀ u < 16, signed u 8 16 = twos 8 u) ∧
    (∀ u < 32, signed u 16 32 = twos 16 u) ∧
    (∀ u < 64, signed u 32 64 = twos 32 u) := by decide

section

variable {payload : Bytes} {g : Artifact.RowSplitGeometry}
  {format : Artifact.NumericFormat} {bits groupSize n k : Nat}

variable {row : Nat}

/-- `_unpack_codes` finds the codes of the device. -/
theorem unpackCodes_eq
    (hspec : Artifact.formatSpec format = .quant bits groupSize)
    (hsame : Artifact.SameGeometry g
      (rowSplitOf bits groupSize n k)) {group item : Nat}
    (hflat : row * (rowSplitOf bits groupSize n k).groupsPerRow
      + group < n * (rowSplitOf bits groupSize n k).groupsPerRow)
    (hitem : item < groupSize) :
    (unpackCodes (pythonPlanes payload bits groupSize n k) bits
        groupSize (rowSplitOf bits groupSize n k)).codes row group
        item
      = (rowSplitWeight payload g).code bits
        (row * (rowSplitOf bits groupSize n k).groupsPerRow
        + group) item := by
  cases format <;> cases hspec
  case q4g64F16s =>
    have hlow := lowBits_eq payload g rfl hflat hitem
    refine (congrArg (signed · 8 16) hlow).trans ?_
    exact signed_eq_twos.1 _ (Weight.low_lt _ _ _)
  case q5g64F16s =>
    have hlow := lowBits_eq payload g rfl hflat hitem
    have hhigh := highBits5_eq payload hsame hflat hitem
    have hlt := (rowSplitWeight payload g).low_lt
      (row * (rowSplitOf 5 64 n k).groupsPerRow + group) item
    have hlt' := (rowSplitWeight payload g).high5_lt
      (row * (rowSplitOf 5 64 n k).groupsPerRow + group) item
    refine (congrArg₂ (fun low high =>
      signed (low ||| (high <<< 4)) 16 32) hlow hhigh).trans ?_
    rw [nibble_or hlt]
    exact signed_eq_twos.2.1 _ (by omega)
  case q6g64F16s =>
    have hlow := lowBits_eq payload g rfl hflat hitem
    have hhigh := highBits6_eq payload hsame hflat hitem
    have hlt := (rowSplitWeight payload g).low_lt
      (row * (rowSplitOf 6 64 n k).groupsPerRow + group) item
    have hlt' := (rowSplitWeight payload g).high6_lt
      (row * (rowSplitOf 6 64 n k).groupsPerRow + group) item
    refine (congrArg₂ (fun low high =>
      signed (low ||| (high <<< 4)) 32 64) hlow hhigh).trans ?_
    rw [nibble_or hlt]
    exact signed_eq_twos.2.2 _ (by omega)
  case w8g32F16s =>
    have hinside : (row * (rowSplitOf 8 32 n k).groupsPerRow
        + group) * 32 + item < n * (rowSplitOf 8 32 n k).baseRowBytes :=
      group_byte_lt hflat hitem
    exact congrArg int8 (base_eq payload g hinside)

/-- The planes are as long as their bytes. -/
theorem pythonPlanes_length
    (hlength : payload.length = (rowSplitOf bits groupSize n k).payloadBytes) :
    (pythonPlanes payload bits groupSize n k).base.length
        = n * (rowSplitOf bits groupSize n k).baseRowBytes ∧
      (pythonPlanes payload bits groupSize n k).scale.length
        = n * (rowSplitOf bits groupSize n k).scaleRowBytes := by
  have hapart := Artifact.planesApart bits groupSize n k
  have hbase := hapart.base_high
  have hhigh := hapart.high_scale
  have hscale := hapart.inside
  change _ + n * (rowSplitOf bits groupSize n k).baseRowBytes ≤ _ at hbase
  change _ + n * (rowSplitOf bits groupSize n k).scaleRowBytes = _ at hscale
  constructor
  · rw [pythonPlanes, splitRowPlanes, length_take, length_drop]
    change min (n * _) (payload.length - 0) = _
    change 0 + _ ≤ _ at hbase
    omega
  · rw [pythonPlanes, splitRowPlanes, length_take, length_drop]
    change min (n * _) _ = _
    omega

/-- The dequantisers multiply the codes of `_unpack_codes`. -/
theorem dequantizer_eq
    (hspec : Artifact.formatSpec format = .quant bits groupSize)
    (hlength : payload.length = (rowSplitOf bits groupSize n k).payloadBytes)
    {group : Nat}
    (hflat : row * (rowSplitOf bits groupSize n k).groupsPerRow
      + group < n * (rowSplitOf bits groupSize n k).groupsPerRow)
    (item : Nat) :
    dequantizer bits (pythonPlanes payload bits groupSize n k)
        (row * (rowSplitOf bits groupSize n k).groupsPerRow
        + group) item
      = ⟨(unpackCodes (pythonPlanes payload bits groupSize n k)
            bits groupSize (rowSplitOf bits groupSize n k)).codes
            row group item,
          (unpackCodes (pythonPlanes payload bits groupSize n k)
            bits groupSize (rowSplitOf bits groupSize n k)).scales
            row group⟩ := by
  cases format <;> cases hspec
  case q4g64F16s => rfl
  case q5g64F16s => rfl
  case q6g64F16s => rfl
  case w8g32F16s =>
    -- As many bytes to a scale as a group has.
    have hper : (pythonPlanes payload 8 32 n k).base.length
        / ((pythonPlanes payload 8 32 n k).scale.length / 2) = 32 := by
      obtain ⟨hbase, hscale⟩ := pythonPlanes_length hlength
      change _ = n * ((rowSplitOf 8 32 n k).groupsPerRow * 32) at hbase
      change _ = n * ((rowSplitOf 8 32 n k).groupsPerRow * 2) at hscale
      rw [← mul_assoc] at hbase hscale
      rw [hbase, hscale, Nat.mul_div_cancel _ (by decide)]
      exact Nat.mul_div_cancel_left _ (by omega)
    change dequant8 _ _ _ = _
    rw [dequant8, hper]
    rfl

/-- A row is padded to whole groups. -/
theorem kPad_eq (hspec : Artifact.formatSpec format = .quant bits groupSize) :
    (rowSplitOf bits groupSize n k).kPad
        = (rowSplitOf bits groupSize n k).groupsPerRow * groupSize
      ∧ (rowSplitOf bits groupSize n k).kPad % 128 = 0
      ∧ k ≤ (rowSplitOf bits groupSize n k).kPad
      ∧ 0 < groupSize := by
  have hle := Artifact.le_alignUp 128 k (by decide)
  have hwhole : alignUp k 128 % 128 = 0 := by
    rw [alignUp]
    exact Nat.mul_mod_left _ _
  have hgroups : alignUp k 128 = alignUp k 128 / groupSize * groupSize := by
    cases format <;> cases hspec <;> omega
  have hpos : 0 < groupSize := by
    cases format <;> cases hspec <;> decide
  exact ⟨hgroups, hwhole, hle, hpos⟩

variable {column : Nat}

/-- A column's group counted over all rows. -/
theorem flat_group {groups groupSize n : Nat} (hrow : row < n)
    (hcolumn : column < groups * groupSize) :
    row * groups + column / groupSize < n * groups ∧
      (row * (groups * groupSize) + column) / groupSize
        = row * groups + column / groupSize ∧
      (row * (groups * groupSize) + column) % groupSize
        = column % groupSize := by
  have hsize : 0 < groupSize := by
    rcases Nat.eq_zero_or_pos groupSize with rfl | hpos
    · omega
    · exact hpos
  have hgroup : column / groupSize < groups :=
    Nat.div_lt_of_lt_mul (by rwa [mul_comm] at hcolumn)
  have hmono : (row + 1) * groups ≤ n * groups :=
    Nat.mul_le_mul_right groups hrow
  rw [Nat.succ_mul] at hmono
  refine ⟨by omega, ?_, ?_⟩
  · rw [← mul_assoc, mul_comm _ groupSize, Nat.mul_add_div hsize]
  · rw [← mul_assoc, mul_comm _ groupSize, Nat.mul_add_mod]

/-- The code and scale the reference finds for a weight. -/
def referenceFactors (codes : DecodedCodes)
    (groupSize row column : Nat) : Factors :=
  { code := codes.codes row (column / groupSize) (column % groupSize)
    scale := codes.scales row (column / groupSize) }

/-- The weight a reader makes of them. -/
def Decoded.ofFactors (factors : Factors) : Decoded :=
  .ofInt factors.code factors.scale

/-- The device's weight is the reference's. -/
theorem weightAt_eq (hspec : Artifact.formatSpec format = .quant bits groupSize)
    (hsame : Artifact.SameGeometry g (rowSplitOf bits groupSize n k))
    (hrow : row < n) (hcolumn : column < k) :
    (rowSplitWeight payload g).weightAt bits groupSize row column
      = .ofFactors (referenceFactors
        (unpackCodes (pythonPlanes payload bits groupSize n k)
        bits groupSize (rowSplitOf bits groupSize n k))
        groupSize row column) := by
  obtain ⟨hgroups, -, hle, hpos⟩ := kPad_eq (n := n) (k := k) hspec
  have hinside : column < (rowSplitOf bits groupSize n
      k).groupsPerRow * groupSize := by omega
  obtain ⟨hflat, -, -⟩ := flat_group hrow hinside
  have hscale := scale_eq payload hsame hflat
  have hrowGroups : (rowSplitWeight payload g).paddedColumns / groupSize
      = (rowSplitOf bits groupSize n k).groupsPerRow :=
    congrArg (· / groupSize) hsame.padded
  rw [Weight.weightAt, hrowGroups, Decoded.ofFactors, referenceFactors,
    unpackCodes_eq hspec hsame hflat (Nat.mod_lt column hpos), ← hscale]
  rfl

/-- And what the dequantisers multiply. -/
theorem dequantized_eq
    (hspec : Artifact.formatSpec format = .quant bits groupSize)
    (hlength : payload.length = (rowSplitOf bits groupSize n k).payloadBytes)
    (hrow : row < n) (hcolumn : column < k) :
    dequantizer bits (pythonPlanes payload bits groupSize n k)
        ((row * (rowSplitOf bits groupSize n k).kPad + column)
        / groupSize)
        ((row * (rowSplitOf bits groupSize n k).kPad + column)
        % groupSize)
      = referenceFactors (unpackCodes (pythonPlanes payload bits groupSize n k)
        bits groupSize (rowSplitOf bits groupSize n k))
        groupSize row column := by
  obtain ⟨hgroups, -, hle, -⟩ := kPad_eq (n := n) (k := k) hspec
  rw [hgroups]
  obtain ⟨hflat, hgroup, hitem⟩ := flat_group hrow (show column < (
    rowSplitOf bits groupSize n k).groupsPerRow * groupSize by omega)
  rw [hgroup, hitem]
  exact dequantizer_eq hspec hlength hflat _

end

/-- Kernels gather what the weights of their tokens' rows are. -/
theorem Gathers.congr {writes : Writes} {weight weight' : Nat → Nat → Decoded}
    {ids : Nat → Nat} {d tokens : Nat}
    (h : Gathers writes weight ids d tokens)
    (hsame : ∀ t < tokens, ∀ column < d,
      weight (ids t) column = weight' (ids t) column) :
    Gathers writes weight' ids d tokens := by
  refine ⟨?_, h.all⟩
  intro write hwrite
  obtain ⟨hlt, hvalue⟩ := h.right write hwrite
  have hd : 0 < d := by
    rcases Nat.eq_zero_or_pos d with rfl | hpos
    · omega
    · exact hpos
  refine ⟨hlt, ?_⟩
  rw [hvalue]
  exact hsame _ (Nat.div_lt_of_lt_mul hlt) _ (Nat.mod_lt _ hd)

-- ============ the circle

/-- Every reader of a row-split payload decodes the same numbers: the
planes of both geometries, the codes and scales of the reference and of
its dequantisers, the device readers, and the embedding kernels. -/
theorem row_split_readers_agree {format : Artifact.NumericFormat}
    {bits groupSize : Nat} {rows columns : UInt64}
    {g : Artifact.RowSplitGeometry} {payload : Bytes}
    (hspec : Artifact.formatSpec format = .quant bits groupSize)
    (hgeometry : Artifact.rowSplitGeometry format [rows, columns] = .ok g)
    (hpayload : payload.length = g.encodedBytes.toNat) :
    ∃ p codes factors,
      Container.rowSplitGeometry (Artifact.formatSpec format)
        [rows.toNat, columns.toNat] = .ok p ∧
      Artifact.SameGeometry g p ∧ Artifact.PlanesApart p ∧
      Container.decodeRowSplitCodes payload (Artifact.formatSpec format)
        [rows.toNat, columns.toNat] = .ok codes ∧
      Container.dequantizeRowSplit payload (Artifact.formatSpec format)
        [rows.toNat, columns.toNat] = .ok factors ∧
      (∀ row < rows.toNat, ∀ column < columns.toNat,
        factors row column = referenceFactors codes groupSize row column ∧
        ∀ reader : Reader, reader.format = format → reader.Holds row column →
          reader.decode (rowSplitWeight payload g) row column
            = .ofFactors (referenceFactors codes groupSize row column)) ∧
      ∀ (ids : Nat → Nat) (tokens : Nat), (∀ t < tokens, ids t < rows.toNat) →
        (format = .q6g64F16s →
          Gathers (embeddingQ6 (rowSplitWeight payload g) ids tokens)
            (fun row column =>
              .ofFactors (referenceFactors codes groupSize row column))
            ids columns.toNat tokens) ∧
        (format = .w8g32F16s →
          Gathers (embeddingW8 (rowSplitWeight payload g) ids tokens)
            (fun row column =>
              .ofFactors (referenceFactors codes groupSize row column))
            ids columns.toNat tokens) ∧
        (format = .w8g32F16s → columns.toNat = 2048 →
          ∀ route, Gathers
            (embedGatherW8_2048Launch (rowSplitWeight payload g) ids tokens route)
            (fun row column =>
              .ofFactors (referenceFactors codes groupSize row column))
            ids 2048 tokens) := by
  obtain ⟨hrows, hcolumns, hsame⟩ :=
    Artifact.rowSplitGeometry_exact hspec hgeometry
  obtain ⟨-, hwhole, hle, -⟩ :=
    kPad_eq (n := rows.toNat) (k := columns.toNat) hspec
  have hlength : payload.length = (Container.rowSplitOf bits groupSize
      rows.toNat columns.toNat).payloadBytes := by
    rw [hpayload]
    exact hsame.bytes
  have hshape := Artifact.shapeOfRankTwo_pair hrows hcolumns
  rw [List.map_cons, List.map_cons, List.map_nil] at hshape
  have hpython : Container.rowSplitGeometry (.quant bits groupSize)
      [rows.toNat, columns.toNat] = .ok (Container.rowSplitOf bits groupSize
        rows.toNat columns.toNat) := by
    rw [Container.rowSplitGeometry, hshape]
    rfl
  have hplanes : Container.planesOnDevice payload
      (Container.rowSplitOf bits groupSize rows.toNat columns.toNat)
        = .ok (pythonPlanes payload bits groupSize rows.toNat
          columns.toNat) := by
    rw [Container.planesOnDevice, if_neg (by omega)]
    rfl
  have hcolumnsPos := Artifact.toNat_pos hcolumns
  have hpadded : (rowSplitWeight payload g).paddedColumns
      = (Container.rowSplitOf bits groupSize rows.toNat
        columns.toNat).kPad := hsame.padded
  have hwidth : (rowSplitWeight payload g).columns = columns.toNat :=
    hsame.columns
  have hheight : (rowSplitWeight payload g).rows = rows.toNat := hsame.rows
  rw [hspec]
  refine ⟨Container.rowSplitOf bits groupSize rows.toNat columns.toNat,
    Container.unpackCodes
      (pythonPlanes payload bits groupSize rows.toNat columns.toNat) bits
      groupSize
      (Container.rowSplitOf bits groupSize rows.toNat columns.toNat),
    fun row column =>
      Container.dequantizer bits
        (pythonPlanes payload bits groupSize rows.toNat columns.toNat)
        ((row * (Container.rowSplitOf bits groupSize rows.toNat
          columns.toNat).kPad + column) / groupSize)
        ((row * (Container.rowSplitOf bits groupSize rows.toNat
          columns.toNat).kPad + column) % groupSize),
    hpython, hsame, Artifact.planesApart _ _ _ _, ?_, ?_, ?_, ?_⟩
  · rw [Container.decodeRowSplitCodes, hpython, ok_bind, hplanes, ok_bind]
  · rw [Container.dequantizeRowSplit, hpython, ok_bind, hplanes, ok_bind]
  · intro row hrow column hcolumn
    refine ⟨dequantized_eq hspec hlength hrow hcolumn, ?_⟩
    rintro reader rfl hholds
    rw [reader.decode_eq hspec (by omega) (by omega) (by omega) hholds]
    exact weightAt_eq hspec hsame hrow hcolumn
  · intro ids tokens hids
    have hweights : ∀ t < tokens, ∀ column < columns.toNat,
        (rowSplitWeight payload g).weightAt bits groupSize (ids t) column
          = _ := fun t ht column hcolumn =>
      weightAt_eq hspec hsame (hids t ht) hcolumn
    refine ⟨?_, ?_, ?_⟩
    · rintro rfl
      cases hspec
      have hgathers : Gathers
          (embeddingQ6 (rowSplitWeight payload g) ids tokens) _ ids _ tokens :=
        embeddingQ6_gathers _ ids (by omega)
      rw [hwidth] at hgathers
      exact hgathers.congr hweights
    · rintro rfl
      cases hspec
      have hgathers : Gathers
          (embeddingW8 (rowSplitWeight payload g) ids tokens) _ ids _ tokens :=
        embeddingW8_gathers _ ids
      rw [hwidth] at hgathers
      exact hgathers.congr hweights
    · rintro rfl hwide route
      cases hspec
      have hfixed : (rowSplitWeight payload g).paddedColumns = 2048 := by
        rw [hpadded]
        change Container.alignUp columns.toNat 128 = 2048
        rw [hwide]
        rfl
      have hgathers : Gathers (embedGatherW8_2048Launch
          (rowSplitWeight payload g) ids tokens route) _ ids _ tokens :=
        embedGatherW8_2048Launch_gathers _ ids route hfixed
      refine hgathers.congr ?_
      intro t ht column hcolumn
      exact hweights t ht column (by omega)

/-- A Q5 payload of changing bytes, two rows of 70 columns. -/
def countingPayload : Bytes := (List.range 520).map fun i => UInt8.ofNat (7 * i)

theorem row_split_readers_agree_q5 :
    ∃ g, Artifact.rowSplitGeometry .q5g64F16s [2, 70] = .ok g ∧
      ∃ codes, Container.decodeRowSplitCodes countingPayload
          (.quant 5 64) [2, 70] = .ok codes ∧
        ∀ reader ∈ [Reader.q5Scalar, .q5Eight],
          reader.decode (rowSplitWeight countingPayload g) 1 69
            = .ofFactors (referenceFactors codes 64 1 69) := by
  refine ⟨_, rfl, ?_⟩
  have hlength : countingPayload.length = 520 := by
    rw [countingPayload, List.length_map, List.length_range]
  obtain ⟨-, codes, factors, -, -, -, hcodes, -, hweights, -⟩ :=
    row_split_readers_agree
      (show Artifact.formatSpec .q5g64F16s = .quant 5 64 from rfl)
      (show Artifact.rowSplitGeometry .q5g64F16s [2, 70] = .ok _ from rfl)
      hlength
  obtain ⟨-, hreaders⟩ := hweights 1 (by decide) 69 (by decide)
  refine ⟨codes, hcodes, fun reader hreader => ?_⟩
  rcases List.mem_pair.mp hreader with rfl | rfl
  · exact hreaders .q5Scalar rfl trivial
  · exact hreaders .q5Eight rfl trivial

end Ginfer.Ops.RowSplit
