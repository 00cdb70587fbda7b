/-
The planes of a row-split payload, in words and in numbers.

Where `row_split_geometry` returns in C++, every field is the number the
Python `row_split_geometry` computes (`rowSplitGeometry_exact`), so the
planes are the same bytes; they follow one another inside the payload.
-/
import Ginfer.Artifact.Proofs.Layouts
import Ginfer.Artifact.RowSplitCodes

namespace Ginfer.Artifact

open Ginfer.Lib
open Ginfer.Frontend (Bytes ascii)

/-- The two geometries hold the same numbers. -/
structure SameGeometry (g : RowSplitGeometry)
    (p : Container.RowSplitGeometry) : Prop where
  rows : g.rows.toNat = p.n
  columns : g.columns.toNat = p.k
  padded : g.paddedColumns.toNat = p.kPad
  groups : g.groupsPerRow.toNat = p.groupsPerRow
  lowBytes : g.lowPlaneBytes.toNat = p.baseBytes
  highOffset : g.highPlaneOffset.toNat = p.highOffset
  highBytes : g.highPlaneBytes.toNat = p.highBytes
  scaleOffset : g.scalePlaneOffset.toNat = p.scaleOffset
  scaleBytes : g.scalePlaneBytes.toNat = p.scaleBytes
  bytes : g.encodedBytes.toNat = p.payloadBytes

theorem checkedMul_exact {a b w : UInt64} {label : String}
    (h : checkedMul a b label = .ok w) : w.toNat = a.toNat * b.toNat :=
  (checkedMul_fits a b label).of_ok h

theorem checkedAdd_exact {a b w : UInt64} {label : String}
    (h : checkedAdd a b label = .ok w) : w.toNat = a.toNat + b.toNat :=
  (checkedAdd_fits a b label).of_ok h

theorem alignUp_exact {value alignment w : UInt64} {label : String}
    (hpos : 0 < alignment.toNat) (hdvd : alignment.toNat ∣ 2 ^ 64)
    (h : alignUp value alignment label = .ok w) :
    w.toNat = Container.alignUp value.toNat alignment.toNat :=
  ((alignUp_fits value alignment label hpos hdvd).of_ok h).1

/-- The bytes of a group in both registries. -/
theorem quantGeometry_spec {format : NumericFormat} {bits groupSize : Nat}
    (hspec : formatSpec format = .quant bits groupSize) :
    ∃ quant, quantGeometry format = .ok quant ∧ quant.groupSize.toNat = groupSize
      ∧ quant.baseBytesPerGroup.toNat
        = (if bits = 8 then groupSize else groupSize / 2)
      ∧ quant.highBytesPerGroup.toNat = (if bits = 4 ∨ bits = 8 then 0
        else groupSize * (bits - 4) / 8) := by
  cases format <;> cases hspec <;> exact ⟨_, rfl, rfl, rfl, rfl⟩

theorem rankTwo_exact {rows columns : UInt64} {layout : String}
    {dims : UInt64 × UInt64} (h : rankTwo [rows, columns] layout = .ok dims) :
    rows ≠ 0 ∧ columns ≠ 0 ∧ dims = (rows, columns) := by
  by_cases hzero : rows = 0 ∨ columns = 0
  · rw [rankTwo, if_pos hzero] at h
    cases h
  · rw [rankTwo, if_neg hzero] at h
    cases h
    rw [not_or] at hzero
    exact ⟨hzero.1, hzero.2, rfl⟩

/-- A geometry that is computed is the exact one. -/
theorem rowSplitGeometry_exact {format : NumericFormat}
    {bits groupSize : Nat} {rows columns : UInt64} {g : RowSplitGeometry}
    (hspec : formatSpec format = .quant bits groupSize)
    (h : rowSplitGeometry format [rows, columns] = .ok g) :
    rows ≠ 0 ∧ columns ≠ 0 ∧
      SameGeometry g (Container.rowSplitOf bits groupSize rows.toNat
        columns.toNat) := by
  obtain ⟨quant, hquant, hsize, hlow, hhigh⟩ := quantGeometry_spec hspec
  unfold rowSplitGeometry at h
  simp only [bind_ok] at h
  obtain ⟨dims, hdims, q, hq, padded, hpadded, groups, hgroups, low, hlow',
    high, hhigh', scale, hscale, highOffset, hhighOffset, aligned, haligned,
    scaleOffset, hscaleOffset, bytes, hbytes, hg⟩ := h
  obtain ⟨hrows, hcolumns, rfl⟩ := rankTwo_exact hdims
  rw [hquant] at hq
  cases hq
  cases hg
  have epadded := alignUp_exact (by decide) (by decide) hpadded
  have egroups := checkedMul_exact hgroups
  have elow := checkedMul_exact hlow'
  have ehigh := checkedMul_exact hhigh'
  have escale := checkedMul_exact hscale
  have ehighOffset := alignUp_exact (by decide) (by decide) hhighOffset
  have ealigned := alignUp_exact (by decide) (by decide) haligned
  have escaleOffset := checkedAdd_exact hscaleOffset
  have ebytes := checkedAdd_exact hbytes
  change padded.toNat = Container.alignUp columns.toNat 128 at epadded
  change scale.toNat = groups.toNat * 2 at escale
  change highOffset.toNat = Container.alignUp low.toNat 256 at ehighOffset
  change aligned.toNat = Container.alignUp high.toNat 256 at ealigned
  have eperRow : (padded / quant.groupSize).toNat
      = Container.alignUp columns.toNat 128 / groupSize := by
    rw [UInt64.toNat_div, epadded, hsize]
  rw [eperRow] at egroups
  -- In Python the rows come first: rows times the bytes of a row.
  rw [egroups, hlow, Nat.mul_assoc] at elow
  rw [egroups, hhigh, Nat.mul_assoc] at ehigh
  rw [egroups, Nat.mul_assoc] at escale
  rw [elow] at ehighOffset
  rw [ehigh] at ealigned
  rw [ehighOffset, ealigned] at escaleOffset
  rw [escaleOffset, escale] at ebytes
  exact ⟨hrows, hcolumns,
    { rows := rfl
      columns := rfl
      padded := epadded
      groups := eperRow
      lowBytes := elow
      highOffset := ehighOffset
      highBytes := ehigh
      scaleOffset := escaleOffset
      scaleBytes := escale
      bytes := ebytes }⟩

-- ============ the intervals

/-- The planes lie one after the other inside the payload. -/
structure PlanesApart (p : Container.RowSplitGeometry) : Prop where
  base_high : p.baseOffset + p.baseBytes ≤ p.highOffset
  high_scale : p.highOffset + p.highBytes ≤ p.scaleOffset
  inside : p.scaleOffset + p.scaleBytes = p.payloadBytes

theorem planesApart (bits groupSize n k : Nat) :
    PlanesApart (Container.rowSplitOf bits groupSize n k) := by
  constructor
  · have hle := le_alignUp 256
      (Container.rowSplitOf bits groupSize n k).baseBytes (by decide)
    change 0 + _ ≤ _
    rw [Nat.zero_add]
    exact hle
  · have hle := le_alignUp 256
      (Container.rowSplitOf bits groupSize n k).highBytes (by decide)
    exact Nat.add_le_add_left hle _
  · rfl

end Ginfer.Artifact
