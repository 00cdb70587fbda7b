/-
The sizes of the layouts, in words and in numbers.

Each checked operation on words gives the exact number or throws where that
does not fit a word (`Fits`); so a geometry that
is computed is computed exactly. Where one is not, its exact size is at
least `2 ^ 63` (`tensorEncodedSize_agrees`), more than any file holds: the
words refuse nothing that the numbers would keep.
-/
import Ginfer.Lib.Follows
import Ginfer.Artifact.Container

namespace Ginfer.Artifact

open Ginfer.Lib Container List
open Ginfer.Frontend (Bytes ascii)

-- ============ arithmetic

/-- The word of a number, or a throw where it does not fit one. -/
def Fits (x : Except ArtifactError UInt64) (v : Nat) : Prop :=
  Settles (fun w => w.toNat = v) (2 ^ 64 ≤ v) x

theorem u64Max_toNat : u64Max.toNat = 2 ^ 64 - 1 := rfl

theorem checkedAdd_fits (a b : UInt64) (label : String) :
    Fits (checkedAdd a b label) (a.toNat + b.toNat) := by
  have ha := a.toNat_lt
  have hb := b.toNat_lt
  have hsub : (u64Max - a).toNat = 2 ^ 64 - 1 - a.toNat := by
    rw [UInt64.toNat_sub_of_le _ _ (by
      rw [UInt64.le_iff_toNat_le, u64Max_toNat]
      omega), u64Max_toNat]
  unfold checkedAdd
  split
  · next hlt =>
    rw [UInt64.lt_iff_toNat_lt, hsub] at hlt
    exact .inr ⟨⟨_, rfl⟩, by omega⟩
  · next hle =>
    rw [UInt64.lt_iff_toNat_lt, hsub] at hle
    refine .ok ?_
    rw [UInt64.toNat_add, Nat.mod_eq_of_lt (by omega)]

theorem toNat_pos {a : UInt64} (h : a ≠ 0) : 0 < a.toNat := by
  rw [Nat.pos_iff_ne_zero]
  intro hzero
  exact h (UInt64.toNat_inj.mp hzero)

theorem checkedMul_fits (a b : UInt64) (label : String) :
    Fits (checkedMul a b label) (a.toNat * b.toNat) := by
  have hdiv : (u64Max / a).toNat = (2 ^ 64 - 1) / a.toNat := by
    rw [UInt64.toNat_div, u64Max_toNat]
  unfold checkedMul
  by_cases ha : a = 0
  · subst ha
    rw [if_neg (fun h => h.1 rfl)]
    refine .ok ?_
    simp
  · have hpos := toNat_pos ha
    split
    · next hlt =>
      have hlt' := hlt.2
      rw [UInt64.lt_iff_toNat_lt, hdiv, Nat.div_lt_iff_lt_mul hpos,
        mul_comm] at hlt'
      exact .inr ⟨⟨_, rfl⟩, by omega⟩
    · next hle =>
      have hle' : ¬ u64Max / a < b := fun hlt => hle ⟨ha, hlt⟩
      rw [UInt64.lt_iff_toNat_lt, hdiv, Nat.div_lt_iff_lt_mul hpos,
        mul_comm] at hle'
      refine .ok ?_
      rw [UInt64.toNat_mul, Nat.mod_eq_of_lt (by omega)]

/-- Rounding up to a divisor of `2 ^ 64` throws only where the rounded
number does not fit. -/
theorem alignUp_fits (value alignment : UInt64) (label : String)
    (hpos : 0 < alignment.toNat) (hdvd : alignment.toNat ∣ 2 ^ 64) :
    Settles
      (fun w => w.toNat = Container.alignUp value.toNat alignment.toNat
        ∧ value.toNat + (alignment.toNat - 1) < 2 ^ 64)
      (2 ^ 64 ≤ Container.alignUp value.toNat alignment.toNat)
      (alignUp value alignment label) := by
  have hone : (alignment - 1).toNat = alignment.toNat - 1 := by
    rw [UInt64.toNat_sub_of_le _ _ (by
      rw [UInt64.le_iff_toNat_le]
      exact hpos)]
    rfl
  have hbias : value.toNat + alignment.toNat - 1
      = value.toNat + (alignment.toNat - 1) := by omega
  unfold alignUp Container.alignUp
  rw [hbias]
  refine (checkedAdd_fits value (alignment - 1) label).bind ?_ ?_
  · intro hbig
    rw [hone] at hbig
    obtain ⟨c, hc⟩ := hdvd
    have hle : c ≤ (value.toNat + (alignment.toNat - 1))
        / alignment.toNat := by
      rw [Nat.le_div_iff_mul_le hpos, mul_comm, ← hc]
      exact hbig
    calc 2 ^ 64 = c * alignment.toNat := by rw [hc, mul_comm]
      _ ≤ _ := Nat.mul_le_mul_right _ hle
  · intro w hw
    rw [hone] at hw
    have hlt := w.toNat_lt
    have hmul : (w / alignment).toNat * alignment.toNat ≤ w.toNat := by
      rw [UInt64.toNat_div]
      exact Nat.div_mul_le_self _ _
    refine .ok ⟨?_, by omega⟩
    rw [UInt64.toNat_mul, Nat.mod_eq_of_lt (by omega), UInt64.toNat_div, hw]

theorem le_alignUp (alignment value : Nat) (hpos : 0 < alignment) :
    value ≤ Container.alignUp value alignment := by
  unfold Container.alignUp
  have hlt := Nat.lt_div_mul_add (a := value + alignment - 1) hpos
  omega

-- ============ the geometries

variable {rows columns : UInt64}

theorem rankTwo_pair (hrows : rows ≠ 0)
    (hcolumns : columns ≠ 0) (layout : String) :
    rankTwo [rows, columns] layout = .ok (rows, columns) := by
  have hpos : ¬ (rows = 0 ∨ columns = 0) := by simp [hrows, hcolumns]
  exact if_neg hpos

/-- The exact numbers of `row_split_geometry`, sums before a division
included. -/
def rowSplitNumbers (groupSize low high rows columns : Nat) : List Nat :=
  let padded := Container.alignUp columns 128
  let groups := rows * (padded / groupSize)
  let highOffset := Container.alignUp (groups * low) 256
  let alignedHigh := Container.alignUp (groups * high) 256
  [columns + 127, padded, groups, groups * low, groups * high, groups * 2,
    groups * low + 255, highOffset, groups * high + 255, alignedHigh,
    highOffset + alignedHigh, highOffset + alignedHigh + groups * 2]

/-- The last of them. -/
def rowSplitSize (groupSize low high rows columns : Nat) : Nat :=
  let groups := rows * (Container.alignUp columns 128 / groupSize)
  Container.alignUp (groups * low) 256
    + Container.alignUp (groups * high) 256 + groups * 2

theorem groups_le_rowSplitSize (groupSize low high rows columns : Nat) :
    rows * (Container.alignUp columns 128 / groupSize) * low
      ≤ rowSplitSize groupSize low high rows columns := by
  unfold rowSplitSize
  have hge := le_alignUp 256
    (rows * (Container.alignUp columns 128 / groupSize) * low) (by decide)
  dsimp only
  omega

/-- Columns that do not fit a word do not fit a file. -/
theorem padded_le_rowSplitSize {groupSize rows : Nat} (high columns : Nat)
    (hgroup : groupSize = 64 ∨ groupSize = 32) (hrows : 0 < rows) :
    Container.alignUp columns 128
      ≤ 2 * rowSplitSize groupSize 32 high rows columns := by
  have hle := groups_le_rowSplitSize groupSize 32 high rows columns
  have hone : Container.alignUp columns 128 / groupSize
      ≤ rows * (Container.alignUp columns 128 / groupSize) :=
    Nat.le_mul_of_pos_left _ hrows
  have hmod : Container.alignUp columns 128 % 128 = 0 :=
    Nat.mul_mod_left _ _
  rcases hgroup with rfl | rfl
  · omega
  · omega

theorem rowSplitGeometry_settles {format : NumericFormat} {quant : QuantGeometry}
    (hquant : quantGeometry format = .ok quant)
    (hlow : quant.baseBytesPerGroup.toNat = 32)
    (hgroup : quant.groupSize.toNat = 64 ∨ quant.groupSize.toNat = 32)
    (hrows : rows ≠ 0) (hcolumns : columns ≠ 0) :
    Settles
      (fun g => g.encodedBytes.toNat = rowSplitSize quant.groupSize.toNat 32
        quant.highBytesPerGroup.toNat rows.toNat columns.toNat
        ∧ ∀ v ∈ rowSplitNumbers quant.groupSize.toNat 32
            quant.highBytesPerGroup.toNat rows.toNat columns.toNat,
          v < 2 ^ 64)
      (2 ^ 63 ≤ rowSplitSize quant.groupSize.toNat 32
        quant.highBytesPerGroup.toNat rows.toNat columns.toNat)
      (rowSplitGeometry format [rows, columns]) := by
  have hpadded := padded_le_rowSplitSize quant.highBytesPerGroup.toNat
    columns.toNat hgroup (toNat_pos hrows)
  unfold rowSplitGeometry
  rw [rankTwo_pair hrows hcolumns, ok_bind]
  dsimp only
  rw [hquant, ok_bind]
  unfold rowSplitNumbers rowSplitSize at *
  dsimp only at hpadded ⊢
  -- each word in turn is the number it should be, or that is too large
  refine (alignUp_fits columns kAlignment _ (by decide) (by decide)).bind ?_ ?_
  · intro hbig
    change 2 ^ 64 ≤ Container.alignUp columns.toNat 128 at hbig
    omega
  rintro padded ⟨hpad, hbias⟩
  change padded.toNat = Container.alignUp columns.toNat 128 at hpad
  change columns.toNat + 127 < 2 ^ 64 at hbias
  rw [← hpad] at hpadded ⊢
  rw [← UInt64.toNat_div] at hpadded ⊢
  refine (checkedMul_fits rows (padded / quant.groupSize) _).bind ?_ ?_
  · intro hbig
    have := le_alignUp 256 (rows.toNat
      * (padded / quant.groupSize).toNat * 32) (by decide)
    omega
  intro groups hg
  rw [← hg] at hpadded ⊢
  have hlowOffset := le_alignUp 256 (groups.toNat * 32) (by decide)
  have hhighOffset := le_alignUp 256
    (groups.toNat * quant.highBytesPerGroup.toNat) (by decide)
  refine (checkedMul_fits groups quant.baseBytesPerGroup _).bind ?_ ?_
  · intro hbig
    rw [hlow] at hbig
    omega
  intro low hl
  rw [hlow] at hl
  rw [← hl] at hlowOffset ⊢
  refine (checkedMul_fits groups quant.highBytesPerGroup _).bind ?_ ?_
  · intro hbig
    omega
  intro high hh
  rw [← hh] at hhighOffset ⊢
  refine (checkedMul_fits groups 2 _).bind ?_ ?_
  · intro hbig
    change 2 ^ 64 ≤ groups.toNat * 2 at hbig
    omega
  intro scale hs
  change scale.toNat = groups.toNat * 2 at hs
  refine (alignUp_fits low tensorAlignmentBytes _
    (by decide) (by decide)).bind ?_ ?_
  · intro hbig
    change 2 ^ 64 ≤ Container.alignUp low.toNat 256 at hbig
    omega
  rintro highOffset ⟨hho, hbiasLow⟩
  change highOffset.toNat = Container.alignUp low.toNat 256 at hho
  change low.toNat + 255 < 2 ^ 64 at hbiasLow
  refine (alignUp_fits high tensorAlignmentBytes _
    (by decide) (by decide)).bind ?_ ?_
  · intro hbig
    change 2 ^ 64 ≤ Container.alignUp high.toNat 256 at hbig
    omega
  rintro alignedHigh ⟨hah, hbiasHigh⟩
  change alignedHigh.toNat = Container.alignUp high.toNat 256 at hah
  change high.toNat + 255 < 2 ^ 64 at hbiasHigh
  rw [← hho, ← hah]
  refine (checkedAdd_fits highOffset alignedHigh _).bind ?_ ?_
  · intro hbig
    omega
  intro scaleOffset hso
  refine (checkedAdd_fits scaleOffset scale _).bind ?_ ?_
  · intro hbig
    omega
  intro encoded henc
  have := encoded.toNat_lt
  have := padded.toNat_lt
  refine .ok ⟨by dsimp only; omega, ?_⟩
  intro v hv
  simp only [mem_cons, not_mem_nil, or_false] at hv
  omega

-- ------------------------------------------------ block scale, row scale

/-- The exact numbers of `block_scale_geometry`. -/
def blockScaleNumbers (rows columns : Nat) : List Nat :=
  let elements := rows * columns
  let scaleOffset := Container.alignUp (elements / 2) 256
  [elements, elements / 2 + 255, scaleOffset, scaleOffset + elements / 16,
    scaleOffset + elements / 16 + 4]

theorem blockScaleGeometry_settles (hrows : rows ≠ 0) (hcolumns : columns ≠ 0)
    (hdiv : rows.toNat % 128 = 0 ∧ columns.toNat % 64 = 0) :
    Settles
      (fun g => g.encodedBytes.toNat
        = (blockScaleOf 16 rows.toNat columns.toNat).payloadBytes
        ∧ ∀ v ∈ blockScaleNumbers rows.toNat columns.toNat, v < 2 ^ 64)
      (2 ^ 63 ≤ (blockScaleOf 16 rows.toNat columns.toNat).payloadBytes)
      (blockScaleGeometry .nvfp4 [rows, columns]) := by
  have hmod : ¬ (rows % 128 ≠ 0 ∨ columns % 64 ≠ 0) := by
    rw [not_or, not_not, not_not]
    refine ⟨UInt64.toNat_inj.mp ?_, UInt64.toNat_inj.mp ?_⟩
    · exact (UInt64.toNat_mod ..).trans hdiv.1
    · exact (UInt64.toNat_mod ..).trans hdiv.2
  unfold blockScaleGeometry
  rw [if_neg (fun h => h rfl), rankTwo_pair hrows hcolumns, ok_bind]
  dsimp only
  rw [if_neg hmod]
  unfold blockScaleNumbers blockScaleOf
  dsimp only
  have hge := le_alignUp 256 (rows.toNat * columns.toNat / 2) (by decide)
  refine (checkedMul_fits rows columns _).bind ?_ ?_
  · intro hbig
    omega
  intro elements he
  rw [← he] at hge ⊢
  have hhalf : (elements / 2).toNat = elements.toNat / 2 :=
    UInt64.toNat_div ..
  have hsixteenth : (elements / 16).toNat = elements.toNat / 16 :=
    UInt64.toNat_div ..
  refine (alignUp_fits (elements / 2) tensorAlignmentBytes _
    (by decide) (by decide)).bind ?_ ?_
  · intro hbig
    rw [hhalf] at hbig
    change 2 ^ 64 ≤ Container.alignUp (elements.toNat / 2) 256 at hbig
    omega
  rintro scaleOffset ⟨hso, hbias⟩
  rw [hhalf] at hso hbias
  change scaleOffset.toNat = Container.alignUp (elements.toNat / 2) 256 at hso
  change elements.toNat / 2 + 255 < 2 ^ 64 at hbias
  refine (checkedAdd_fits scaleOffset (elements / 16) _).bind ?_ ?_
  · intro hbig
    omega
  intro divisorOffset hdo
  refine (checkedAdd_fits divisorOffset 4 _).bind ?_ ?_
  · intro hbig
    change 2 ^ 64 ≤ divisorOffset.toNat + 4 at hbig
    omega
  intro encoded henc
  change encoded.toNat = divisorOffset.toNat + 4 at henc
  have := encoded.toNat_lt
  have := elements.toNat_lt
  refine .ok ⟨by dsimp only; omega, ?_⟩
  intro v hv
  simp only [mem_cons, not_mem_nil, or_false] at hv
  omega

/-- The exact numbers of `row_scale_geometry`. -/
def rowScaleNumbers (rows columns : Nat) : List Nat :=
  let scaleOffset := Container.alignUp (rows * columns) 256
  [rows * columns, rows * columns + 255, scaleOffset, rows * 2,
    scaleOffset + rows * 2]

theorem rowScaleGeometry_settles (hrows : rows ≠ 0) (hcolumns : columns ≠ 0) :
    Settles
      (fun g => g.encodedBytes.toNat
        = (rowScaleOf rows.toNat columns.toNat).payloadBytes
        ∧ ∀ v ∈ rowScaleNumbers rows.toNat columns.toNat, v < 2 ^ 64)
      (2 ^ 63 ≤ (rowScaleOf rows.toNat columns.toNat).payloadBytes)
      (rowScaleGeometry .fp8E4m3fnRowBf16s [rows, columns]) := by
  unfold rowScaleGeometry
  rw [if_neg (fun h => h rfl), rankTwo_pair hrows hcolumns, ok_bind]
  dsimp only
  unfold rowScaleNumbers rowScaleOf
  dsimp only
  have hge := le_alignUp 256 (rows.toNat * columns.toNat) (by decide)
  refine (checkedMul_fits rows columns _).bind ?_ ?_
  · intro hbig
    omega
  intro codes hc
  rw [← hc] at hge ⊢
  refine (alignUp_fits codes tensorAlignmentBytes _
    (by decide) (by decide)).bind ?_ ?_
  · intro hbig
    change 2 ^ 64 ≤ Container.alignUp codes.toNat 256 at hbig
    omega
  rintro scaleOffset ⟨hso, hbias⟩
  change scaleOffset.toNat = Container.alignUp codes.toNat 256 at hso
  change codes.toNat + 255 < 2 ^ 64 at hbias
  refine (checkedMul_fits rows 2 _).bind ?_ ?_
  · intro hbig
    change 2 ^ 64 ≤ rows.toNat * 2 at hbig
    omega
  intro scale hs
  change scale.toNat = rows.toNat * 2 at hs
  refine (checkedAdd_fits scaleOffset scale _).bind ?_ ?_
  · intro hbig
    omega
  intro encoded henc
  have := encoded.toNat_lt
  have := scale.toNat_lt
  refine .ok ⟨by dsimp only; omega, ?_⟩
  intro v hv
  simp only [mem_cons, not_mem_nil, or_false] at hv
  omega

-- ------------------------------------------------------------- contiguous

/-- The running products of a shape. -/
def partialProducts : Nat → List Nat → List Nat
  | _, [] => []
  | elements, dim :: rest =>
    elements * dim :: partialProducts (elements * dim) rest

theorem elementCount_settles : ∀ (shape : List UInt64) (elements : UInt64),
    (∀ dim ∈ shape, dim ≠ 0) →
    Settles
      (fun w => w.toNat = elements.toNat * (shape.map UInt64.toNat).prod
        ∧ ∀ v ∈ partialProducts elements.toNat (shape.map UInt64.toNat),
        v < 2 ^ 64)
      (2 ^ 64 ≤ elements.toNat * (shape.map UInt64.toNat).prod)
      (elementCount elements shape) := by
  intro shape
  induction shape with
  | nil =>
    intro elements _
    refine .ok ⟨by simp, ?_⟩
    intro v hv
    cases hv
  | cons dim rest ih =>
    intro elements hpos
    have hdim : dim ≠ 0 := hpos dim (.head _)
    have hrest : ∀ d ∈ rest, d ≠ 0 :=
      fun d hd => hpos d (.tail _ hd)
    have hprod : 0 < (rest.map UInt64.toNat).prod := by
      rw [List.prod_pos_iff_forall_pos_nat]
      intro n hn
      obtain ⟨d, hd, rfl⟩ := mem_map.mp hn
      exact toNat_pos (hrest d hd)
    unfold elementCount
    rw [if_neg hdim, map_cons, prod_cons, ← mul_assoc]
    refine (checkedMul_fits elements dim _).bind ?_ ?_
    · intro hbig
      exact le_trans hbig (Nat.le_mul_of_pos_right _ hprod)
    intro product hp
    rw [← hp]
    refine (ih product hrest).mono ?_ fun hbig => hbig
    rintro w ⟨hw, hnumbers⟩
    refine ⟨hw, ?_⟩
    intro v hv
    rw [partialProducts, ← hp] at hv
    rcases mem_cons.mp hv with rfl | hin
    · exact product.toNat_lt
    · exact hnumbers v hin

-- ============ the four layouts

/-- What the tools hold about a format. -/
def formatSpec : NumericFormat → Container.NumericFormat
  | .bf16 => .direct 2
  | .fp32 => .direct 4
  | .i32 => .direct 4
  | .q4g64F16s => .quant 4 64
  | .q5g64F16s => .quant 5 64
  | .q6g64F16s => .quant 6 64
  | .w8g32F16s => .quant 8 32
  | .nvfp4 => .nvfp4 16
  | .fp8E4m3fnRowBf16s => .fp8Row

/-- The formats of a layout. -/
def accepts : StorageLayout → NumericFormat → Bool
  | .contiguousLeV1, .bf16 => true
  | .contiguousLeV1, .fp32 => true
  | .contiguousLeV1, .i32 => true
  | .rowSplitK128V1, .q4g64F16s => true
  | .rowSplitK128V1, .q5g64F16s => true
  | .rowSplitK128V1, .q6g64F16s => true
  | .rowSplitK128V1, .w8g32F16s => true
  | .blockScaleK16M128x4V1, .nvfp4 => true
  | .rowScaleV1, .fp8E4m3fnRowBf16s => true
  | _, _ => false

/-- The exact size of a tensor, of a format its layout accepts. -/
def exactSize (layout : StorageLayout) (format : NumericFormat)
    (shape : List Nat) : Except ArtifactError Nat :=
  match layout with
  | .contiguousLeV1 => Container.contiguousSize (formatSpec format) shape
  | .rowSplitK128V1 => do
    let geometry ← Container.rowSplitGeometry (formatSpec format) shape
    .ok geometry.payloadBytes
  | .blockScaleK16M128x4V1 => do
    let geometry ← Container.blockScaleGeometry (formatSpec format) shape
    .ok geometry.payloadBytes
  | .rowScaleV1 => do
    let geometry ← Container.rowScaleGeometry (formatSpec format) shape
    .ok geometry.payloadBytes

/-- `encoded_size` of registered names. -/
theorem encodedSize_names (strRepr : Bytes → Bytes)
    (layout : StorageLayout) (format : NumericFormat) (shape : List Nat) :
    encodedSize strRepr (layoutName layout) (formatName format) shape
      = if accepts layout format then exactSize layout format shape
        else .error ⟨ascii "layout " ++ strRepr (layoutName layout)
        ++ ascii " does not accept format "
        ++ strRepr (formatName format)⟩ := by
  cases layout <;> cases format <;> rfl

/-- The exact numbers of a tensor's size, each a word of the source. -/
def exactNumbers (layout : StorageLayout) (format : NumericFormat)
    (shape : List Nat) : List Nat :=
  match layout, formatSpec format, shape with
  | .contiguousLeV1, .direct wordBytes, shape =>
    partialProducts 1 shape ++ [shape.prod * wordBytes]
  | .rowSplitK128V1, .quant bits groupSize, [rows, columns] =>
    rowSplitNumbers groupSize 32
      (if bits = 4 ∨ bits = 8 then 0 else groupSize * (bits - 4) / 8)
      rows columns
  | .blockScaleK16M128x4V1, .nvfp4 _, [rows, columns] =>
    blockScaleNumbers rows columns
  | .rowScaleV1, .fp8Row, [rows, columns] => rowScaleNumbers rows columns
  | _, _, _ => []

/-- Where the numbers give a size, the words give it without a wrap or
throw because it is too large for a file; where the numbers refuse, the
words do. -/
def SizeAgrees (words : Except ArtifactError UInt64)
    (numbers : Except ArtifactError Nat) (all : List Nat) : Prop :=
  match numbers with
  | .ok v => Settles (fun w => w.toNat = v ∧ ∀ x ∈ all, x < 2 ^ 64)
    (2 ^ 63 ≤ v) words
  | .error _ => ∃ e, words = .error e

theorem rankTwo_other {shape : List UInt64} (layout : String)
    (h : ∀ r c, shape ≠ [r, c]) :
    ∃ e, rankTwo shape layout = .error e := by
  unfold rankTwo
  split
  · next r c => exact absurd rfl (h r c)
  · exact ⟨_, rfl⟩

theorem shapeOfRankTwo_other {shape : List UInt64} (h : ∀ r c, shape ≠ [r, c]) :
    ∃ e, shapeOfRankTwo (shape.map UInt64.toNat)
      = .error e := by
  unfold shapeOfRankTwo
  split
  · exact ⟨_, rfl⟩
  split
  · next n k heq =>
    match shape, heq with
    | [r, c], _ => exact absurd rfl (h r c)
  · exact ⟨_, rfl⟩

theorem shapeOfRankTwo_pair {r c : UInt64} (hr : r ≠ 0) (hc : c ≠ 0) :
    shapeOfRankTwo ([r, c].map UInt64.toNat)
      = .ok (r.toNat, c.toNat) := by
  have hpos : ¬ ([r, c].map UInt64.toNat).any (· = 0) = true := by
    have hr' := toNat_pos hr
    have hc' := toNat_pos hc
    simp
    omega
  exact if_neg hpos

section

variable (strRepr : Bytes → Bytes) (format : NumericFormat) {shape : List UInt64}

theorem contiguous_agrees (hpos : ∀ d ∈ shape, d ≠ 0) :
    SizeAgrees (tensorEncodedSize .contiguousLeV1 format shape)
      (encodedSize strRepr (layoutName .contiguousLeV1)
        (formatName format) (shape.map UInt64.toNat))
      (exactNumbers .contiguousLeV1 format (shape.map UInt64.toNat)) := by
  have hcount := elementCount_settles shape 1 hpos
  have hany : ¬ (shape.map UInt64.toNat).any (· = 0) = true := by
    rw [any_eq_true]
    rintro ⟨n, hn, hzero⟩
    obtain ⟨d, hd, rfl⟩ := mem_map.mp hn
    exact hpos d hd (UInt64.toNat_inj.mp (by simpa using hzero))
  rw [encodedSize_names]
  -- a direct format, by its word size
  have hdirect : ∀ word : UInt64, directWordBytes format = .ok word →
      formatSpec format = .direct word.toNat → 0 < word.toNat →
      SizeAgrees (tensorEncodedSize .contiguousLeV1 format shape)
        (exactSize .contiguousLeV1 format (shape.map UInt64.toNat))
        (exactNumbers .contiguousLeV1 format
          (shape.map UInt64.toNat)) := by
    intro word hword hspec hwpos
    unfold exactSize exactNumbers tensorEncodedSize
    dsimp only
    rw [hspec]
    unfold contiguousSize
    dsimp only
    rw [if_neg hany, length_map]
    by_cases hrank : 16 < shape.length
    · rw [if_pos hrank, if_pos hrank]
      exact ⟨_, rfl⟩
    rw [if_neg hrank, if_neg hrank]
    refine hcount.bind ?_ ?_
    · intro hbig
      rw [UInt64.toNat_one, one_mul] at hbig
      have hle := Nat.le_mul_of_pos_right (shape.map UInt64.toNat).prod hwpos
      omega
    rintro elements ⟨hel, hnumbers⟩
    rw [UInt64.toNat_one, one_mul] at hel
    rw [hword, ok_bind, ← hel]
    refine (checkedMul_fits elements word _).mono ?_ ?_
    · intro w hw
      refine ⟨hw, ?_⟩
      intro x hx
      rcases mem_append.mp hx with hin | hlast
      · exact hnumbers x hin
      · rw [mem_singleton.mp hlast, ← hw]
        exact w.toNat_lt
    · intro hbig
      omega
  have hother : directWordBytes format
      = artifactError "contiguous-le-v1 requires BF16, FP32, or I32" →
      ∃ e, tensorEncodedSize .contiguousLeV1 format shape = .error e := by
    intro hword
    unfold tensorEncodedSize
    dsimp only
    split
    · exact ⟨_, rfl⟩
    rw [hword]
    cases elementCount 1 shape with
    | error e => exact ⟨e, rfl⟩
    | ok elements => exact ⟨_, rfl⟩
  cases format
  case bf16 => exact hdirect 2 rfl rfl (by decide)
  case fp32 => exact hdirect 4 rfl rfl (by decide)
  case i32 => exact hdirect 4 rfl rfl (by decide)
  all_goals exact hother rfl

/-- The other layouts are of rank two. -/
theorem otherRank_agrees {layout : StorageLayout}
    (hlayout : layout ≠ .contiguousLeV1)
    (hshape : ∀ r c, shape ≠ [r, c]) (all : List Nat) :
    SizeAgrees (tensorEncodedSize layout format shape)
      (encodedSize strRepr (layoutName layout)
        (formatName format) (shape.map UInt64.toNat)) all := by
  have hwords : ∃ e, tensorEncodedSize layout format shape = .error e := by
    cases layout with
    | contiguousLeV1 => exact absurd rfl hlayout
    | rowSplitK128V1 =>
      obtain ⟨e, he⟩ := rankTwo_other "row-split-k128-v1" hshape
      unfold tensorEncodedSize
      dsimp only
      rw [he]
      exact ⟨e, rfl⟩
    | blockScaleK16M128x4V1 =>
      obtain ⟨e, he⟩ := rankTwo_other "blockscale-k16-m128x4-v1" hshape
      unfold tensorEncodedSize blockScaleGeometry
      dsimp only
      split
      · exact ⟨_, rfl⟩
      · rw [he]
        exact ⟨e, rfl⟩
    | rowScaleV1 =>
      obtain ⟨e, he⟩ := rankTwo_other "row-scale-v1" hshape
      unfold tensorEncodedSize rowScaleGeometry
      dsimp only
      split
      · exact ⟨_, rfl⟩
      · rw [he]
        exact ⟨e, rfl⟩
  have hnumbers : accepts layout format = true →
      ∃ e, exactSize layout format (shape.map UInt64.toNat)
        = .error e := by
    obtain ⟨e, he⟩ := shapeOfRankTwo_other hshape
    intro haccepts
    refine ⟨e, ?_⟩
    unfold exactSize Container.rowSplitGeometry Container.blockScaleGeometry
      Container.rowScaleGeometry
    rw [he]
    revert haccepts hlayout
    cases layout <;> cases format <;> simp [accepts, formatSpec] <;> rfl
  rw [encodedSize_names]
  split
  · next haccepts =>
    obtain ⟨e, he⟩ := hnumbers haccepts
    rw [he]
    exact hwords
  · exact hwords

/-- A layout of matrices, by its matrices. -/
theorem agrees_of_pair {layout : StorageLayout}
    (hlayout : layout ≠ .contiguousLeV1) (hpos : ∀ d ∈ shape, d ≠ 0)
    (hpair : ∀ r c : UInt64, r ≠ 0 → c ≠ 0 →
      SizeAgrees (tensorEncodedSize layout format [r, c])
        (encodedSize strRepr (layoutName layout)
          (formatName format) ([r, c].map UInt64.toNat))
        (exactNumbers layout format ([r, c].map UInt64.toNat))) :
    SizeAgrees (tensorEncodedSize layout format shape)
      (encodedSize strRepr (layoutName layout)
        (formatName format) (shape.map UInt64.toNat))
      (exactNumbers layout format (shape.map UInt64.toNat)) := by
  by_cases hshape : ∃ r c, shape = [r, c]
  · obtain ⟨r, c, rfl⟩ := hshape
    exact hpair r c (hpos r (.head _)) (hpos c (.tail _ (.head _)))
  · exact otherRank_agrees strRepr format hlayout
      (fun r c h => hshape ⟨r, c, h⟩) _

theorem rowSplit_agrees (hpos : ∀ d ∈ shape, d ≠ 0) :
    SizeAgrees (tensorEncodedSize .rowSplitK128V1 format shape)
      (Container.encodedSize strRepr (layoutName .rowSplitK128V1)
        (formatName format) (shape.map UInt64.toNat))
      (exactNumbers .rowSplitK128V1 format (shape.map UInt64.toNat)) := by
  refine agrees_of_pair strRepr format (by decide) hpos fun r c hr hc => ?_
  rw [encodedSize_names]
  have hwords : tensorEncodedSize .rowSplitK128V1 format [r, c]
      = (rowSplitGeometry format [r, c] >>= fun g => .ok g.encodedBytes) := by
    unfold tensorEncodedSize
    dsimp only
    rw [rankTwo_pair hr hc]
    rfl
  rw [hwords]
  -- a grouped format, by its geometry
  have hquant : ∀ (quant : QuantGeometry) (bits : Nat),
      quantGeometry format = .ok quant →
      quant.baseBytesPerGroup.toNat = 32 →
      (quant.groupSize.toNat = 64 ∨ quant.groupSize.toNat = 32) →
      formatSpec format = .quant bits quant.groupSize.toNat →
      (if bits = 8 then quant.groupSize.toNat
        else quant.groupSize.toNat / 2) = 32 →
      (if bits = 4 ∨ bits = 8 then 0
        else quant.groupSize.toNat * (bits - 4) / 8)
        = quant.highBytesPerGroup.toNat →
      SizeAgrees (rowSplitGeometry format [r, c] >>= fun g => .ok g.encodedBytes)
        (exactSize .rowSplitK128V1 format ([r, c].map UInt64.toNat))
        (exactNumbers .rowSplitK128V1 format
          ([r, c].map UInt64.toNat)) := by
    intro quant bits hq hlow hgroup hspec hbase hhigh
    have hsize : (Container.rowSplitOf bits quant.groupSize.toNat r.toNat
        c.toNat).payloadBytes
        = rowSplitSize quant.groupSize.toNat 32
            quant.highBytesPerGroup.toNat r.toNat c.toNat := by
      unfold Container.rowSplitOf rowSplitSize
      dsimp only
      rw [hbase, hhigh]
      simp only [mul_assoc]
    have hnumbers : exactNumbers .rowSplitK128V1 format ([r, c].map UInt64.toNat)
        = rowSplitNumbers quant.groupSize.toNat 32
            quant.highBytesPerGroup.toNat r.toNat c.toNat := by
      unfold exactNumbers
      rw [hspec, ← hhigh]
      rfl
    rw [hnumbers]
    unfold exactSize Container.rowSplitGeometry
    dsimp only
    rw [hspec]
    dsimp only
    rw [shapeOfRankTwo_pair hr hc, ok_bind]
    dsimp only
    rw [ok_bind, hsize]
    refine (rowSplitGeometry_settles hq hlow hgroup hr hc).bind
      (fun hbig => hbig) ?_
    intro g hg
    exact .ok hg
  have hother : quantGeometry format = artifactError
      "row-split-k128-v1 requires a grouped quantized format" →
      ∃ e, (rowSplitGeometry format [r, c] >>= fun g => .ok g.encodedBytes)
        = .error e := by
    intro hq
    unfold rowSplitGeometry
    rw [rankTwo_pair hr hc, ok_bind]
    dsimp only
    rw [hq]
    exact ⟨_, rfl⟩
  cases format
  case q4g64F16s =>
    exact hquant ⟨64, 32, 0⟩ 4 rfl rfl (.inl rfl) rfl rfl rfl
  case q5g64F16s =>
    exact hquant ⟨64, 32, 8⟩ 5 rfl rfl (.inl rfl) rfl rfl rfl
  case q6g64F16s =>
    exact hquant ⟨64, 32, 16⟩ 6 rfl rfl (.inl rfl) rfl rfl rfl
  case w8g32F16s =>
    exact hquant ⟨32, 32, 0⟩ 8 rfl rfl (.inr rfl) rfl rfl rfl
  all_goals exact hother rfl

theorem blockScale_agrees (hpos : ∀ d ∈ shape, d ≠ 0) :
    SizeAgrees (tensorEncodedSize .blockScaleK16M128x4V1 format shape)
      (encodedSize strRepr (layoutName .blockScaleK16M128x4V1)
        (formatName format) (shape.map UInt64.toNat))
      (exactNumbers .blockScaleK16M128x4V1 format
        (shape.map UInt64.toNat)) := by
  refine agrees_of_pair strRepr format (by decide) hpos fun r c hr hc => ?_
  rw [encodedSize_names]
  cases format
  case nvfp4 =>
    show SizeAgrees
      (blockScaleGeometry .nvfp4 [r, c] >>= fun g => .ok g.encodedBytes)
      (Container.blockScaleGeometry (.nvfp4 16) ([r, c].map UInt64.toNat)
        >>= fun g => .ok g.payloadBytes)
      (blockScaleNumbers r.toNat c.toNat)
    unfold Container.blockScaleGeometry
    dsimp only
    rw [shapeOfRankTwo_pair hr hc, ok_bind]
    dsimp only
    by_cases hdiv : r.toNat % 128 = 0 ∧ c.toNat % 64 = 0
    · rw [if_neg (by omega), ok_bind]
      refine (blockScaleGeometry_settles hr hc hdiv).bind (fun hbig => hbig) ?_
      intro g hg
      exact .ok hg
    · have hmod : r % 128 ≠ 0 ∨ c % 64 ≠ 0 := by
        by_contra hnone
        rw [not_or, not_not, not_not] at hnone
        refine hdiv ⟨?_, ?_⟩
        · exact (UInt64.toNat_mod ..).symm.trans (congrArg UInt64.toNat hnone.1)
        · exact (UInt64.toNat_mod ..).symm.trans (congrArg UInt64.toNat hnone.2)
      rw [if_pos (by omega)]
      unfold blockScaleGeometry
      rw [if_neg (fun h => h rfl), rankTwo_pair hr hc, ok_bind]
      dsimp only
      rw [if_pos hmod]
      exact ⟨_, rfl⟩
  all_goals exact ⟨_, rfl⟩

theorem rowScale_agrees (hpos : ∀ d ∈ shape, d ≠ 0) :
    SizeAgrees (tensorEncodedSize .rowScaleV1 format shape)
      (encodedSize strRepr (layoutName .rowScaleV1)
        (formatName format) (shape.map UInt64.toNat))
      (exactNumbers .rowScaleV1 format (shape.map UInt64.toNat)) := by
  refine agrees_of_pair strRepr format (by decide) hpos fun r c hr hc => ?_
  rw [encodedSize_names]
  cases format
  case fp8E4m3fnRowBf16s =>
    show SizeAgrees
      (rowScaleGeometry .fp8E4m3fnRowBf16s [r, c] >>= fun g => .ok g.encodedBytes)
      (Container.rowScaleGeometry .fp8Row ([r, c].map UInt64.toNat)
        >>= fun g => .ok g.payloadBytes)
      (rowScaleNumbers r.toNat c.toNat)
    unfold Container.rowScaleGeometry
    dsimp only
    rw [shapeOfRankTwo_pair hr hc, ok_bind]
    dsimp only
    rw [ok_bind]
    refine (rowScaleGeometry_settles hr hc).bind (fun hbig => hbig) ?_
    intro g hg
    exact .ok hg
  all_goals exact ⟨_, rfl⟩

/-- The size of a tensor, in words and in numbers. -/
theorem tensorEncodedSize_agrees (layout : StorageLayout)
    (hpos : ∀ d ∈ shape, d ≠ 0) :
    SizeAgrees (tensorEncodedSize layout format shape)
      (encodedSize strRepr (layoutName layout)
        (formatName format) (shape.map UInt64.toNat))
      (exactNumbers layout format (shape.map UInt64.toNat)) := by
  cases layout with
  | contiguousLeV1 => exact contiguous_agrees strRepr format hpos
  | rowSplitK128V1 => exact rowSplit_agrees strRepr format hpos
  | blockScaleK16M128x4V1 => exact blockScale_agrees strRepr format hpos
  | rowScaleV1 => exact rowScale_agrees strRepr format hpos

end

end Ginfer.Artifact
